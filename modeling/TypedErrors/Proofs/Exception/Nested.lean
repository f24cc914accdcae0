import Mathlib.Data.List.Induction
import TypedErrors.Exception.Block

/-! # Exceptions that leave nested blocks

Each block sees the exception that the blocks within it have let through or wrapped (`Wrapped`). Whatever the blocks
are, the causes of the exception that leaves the last one lead through the contexts of the blocks that wrapped, the
outermost first, to the exception that was raised (`leaveAll_chain`). -/

namespace TypedErrors

/-- The exception that wraps another one in a context, which is its cause and its origin. -/
def ErrorContext.wrapping (c : ErrorContext) (x : Exn) : Exn := @Exn.wrapped c.wrapper c (some x) (some x)

/-- Between the text of a context and that of its cause. -/
def Exn.separator : Text := Text.ofString "\n---- source ----\n"

/-- The causes of an exception lead to another one through exceptions with the given contexts. Each of these is a
context error and was raised from its cause. -/
inductive Exn.Chain (r : Registry) : Exn → List ErrorContext → Exn → Prop
  | refl {x : Exn} : Chain r x [] x
  | link {x y : Exn} {c : ErrorContext} {cs : List ErrorContext}
      (hwrapper : r.isInstance (c.wrapping y) ClassTable.wrapper = true) (h : Chain r y cs x) :
      Chain r (c.wrapping y) (c :: cs) x

theorem Exn.Chain.eq_of_nil {r : Registry} {x y : Exn} (h : Chain r y [] x) : y = x := by
  cases h
  rfl

/-- The text of an exception is that of the contexts on the way to its last cause, and of that one. -/
theorem Exn.Chain.text_eq {r : Registry} {x y : Exn} {cs : List ErrorContext} (h : Chain r y cs x) :
    y.text = List.intercalate separator (cs.map (·.text) ++ [x.text]) := by
  induction h with
  | refl => simp [List.intercalate]
  | @link x y c cs _ _ ih =>
    show c.text ++ separator ++ y.text = _
    rw [ih]
    cases cs <;> simp [List.intercalate]

namespace Block

variable {r : Registry} {x y : Exn} {b : Block} {c : ErrorContext} {blocks : List Block}

/-- A context block wraps ordinary exceptions, a converting block those of them that some source of its class
matches. -/
def Catches (r : Registry) (x : Exn) : Block → Prop
  | .converting cls =>
    r.isOrdinary x = true ∧ ∃ e ∈ r.classes.conversions cls, r.isInstance x e.1 = true
  | .withContext _ => r.isOrdinary x = true

/-- A block wraps an exception in a context. Of the conversions of a class the first one that matches builds it. -/
inductive Wraps (r : Registry) (x : Exn) : Block → ErrorContext → Prop
  | converting {cls source name : String} {before after : List (String × String)} {c : ErrorContext}
      (hx : r.isOrdinary x = true) (hentries : r.classes.conversions cls = before ++ (source, name) :: after)
      (hbefore : ∀ e ∈ before, r.isInstance x e.1 = false) (hmatch : r.isInstance x source = true)
      (hbuild : r.build name x = some c) : Wraps r x (.converting cls) c
  | withContext {build : Exn → ErrorContext} (hx : r.isOrdinary x = true) : Wraps r x (.withContext build) (build x)

/-- All that the block builds are contexts that context errors wrap. -/
def BuildsContexts (r : Registry) : Block → Prop
  | .converting cls => ∀ e ∈ r.classes.conversions cls, ∀ x, ∃ c, r.build e.2 x = some c ∧
      r.isInstance (c.wrapping x) ClassTable.wrapper = true
  | .withContext build => ∀ x, r.isInstance ((build x).wrapping x) ClassTable.wrapper = true

theorem conversion?_eq_some {cls : String} : r.conversion? cls x = some c ↔ ∃ before source name after,
    r.classes.conversions cls = before ++ (source, name) :: after ∧ (∀ e ∈ before, r.isInstance x e.1 = false) ∧
      r.isInstance x source = true ∧ r.build name x = some c := by
  rw [Registry.conversion?, Option.bind_eq_some_iff]
  constructor
  · rintro ⟨⟨source, name⟩, hfind, hbuild⟩
    obtain ⟨hmatch, before, after, hentries, hbefore⟩ := List.find?_eq_some_iff_append.mp hfind
    exact ⟨before, source, name, after, hentries, fun e he => by simpa using hbefore e he, hmatch, hbuild⟩
  · rintro ⟨before, source, name, after, hentries, hbefore, hmatch, hbuild⟩
    refine ⟨(source, name), List.find?_eq_some_iff_append.mpr ⟨hmatch, before, after, hentries, fun e he => ?_⟩, hbuild⟩
    simpa using hbefore e he

theorem leave_of_wraps (h : b.Wraps r x c) : b.leave r x = c.wrapping x := by
  cases h with
  | converting hx hentries hbefore hmatch hbuild =>
    rw [leave, if_pos hx, Registry.convert, conversion?_eq_some.mpr ⟨_, _, _, _, hentries, hbefore, hmatch, hbuild⟩]
    rfl
  | withContext hx =>
    rw [leave, if_pos hx]
    rfl

theorem leave_of_not_catches (h : ¬ b.Catches r x) : b.leave r x = x := by
  cases b with
  | withContext build => exact if_neg h
  | converting cls =>
    rw [leave]
    split_ifs with hx
    · have hnone : r.conversion? cls x = none := by
        refine Option.eq_none_iff_forall_ne_some.mpr fun c hc => h ⟨hx, ?_⟩
        obtain ⟨before, source, name, after, hentries, -, hmatch, -⟩ := conversion?_eq_some.mp hc
        exact ⟨(source, name), hentries ▸ List.mem_append_right before List.mem_cons_self, hmatch⟩
      rw [Registry.convert, hnone]
      rfl
    · rfl

theorem exists_wraps_of_catches (hb : b.BuildsContexts r) (h : b.Catches r x) :
    ∃ c, b.Wraps r x c ∧ r.isInstance (c.wrapping x) ClassTable.wrapper = true := by
  cases b with
  | withContext build => exact ⟨build x, .withContext h, hb x⟩
  | converting cls =>
    obtain ⟨hx, hmatch⟩ := h
    obtain ⟨⟨source, name⟩, hfind⟩ := Option.isSome_iff_exists.mp (List.find?_isSome.mpr hmatch)
    obtain ⟨hmatch, before, after, hentries, hbefore⟩ := List.find?_eq_some_iff_append.mp hfind
    obtain ⟨c, hbuild, hwrapper⟩ := hb (source, name) (hentries ▸ List.mem_append_right before List.mem_cons_self) x
    exact ⟨c, .converting hx hentries (fun e he => by simpa using hbefore e he) hmatch hbuild, hwrapper⟩

/-! ### Stacks of blocks -/

/-- The contexts in which an exception that is raised within blocks is wrapped, the outermost first. A block is reached
by the exception that leaves those within it. -/
inductive Wrapped (r : Registry) (x : Exn) : (blocks : List Block) → List ErrorContext → Prop
  | nil : Wrapped r x [] []
  | wraps {blocks : List Block} {b : Block} {c : ErrorContext} {cs : List ErrorContext} (h : Wrapped r x blocks cs)
      (hb : b.Wraps r (leaveAll r x blocks) c) : Wrapped r x (blocks ++ [b]) (c :: cs)
  | passes {blocks : List Block} {b : Block} {cs : List ErrorContext} (h : Wrapped r x blocks cs)
      (hb : ¬ b.Catches r (leaveAll r x blocks)) : Wrapped r x (blocks ++ [b]) cs

theorem leaveAll_concat : leaveAll r x (blocks ++ [b]) = b.leave r (leaveAll r x blocks) := by
  rw [leaveAll, List.foldl_append]
  rfl

theorem run_error {α : Type} : b.run r (.error x : Except Exn α) = .error (b.leave r x) := rfl

/-- Blocks within blocks let the exception out that leaves them all. -/
theorem foldl_run_error {α : Type} :
    blocks.foldl (fun z b => b.run r z) (.error x : Except Exn α) = .error (leaveAll r x blocks) := by
  induction blocks generalizing x with
  | nil => rfl
  | cons b blocks ih => rw [List.foldl_cons, run_error, ih, leaveAll, leaveAll, List.foldl_cons]

/-- Induction over the stack, from the innermost block outwards. -/
theorem exists_wrapped_chain (hblocks : ∀ b ∈ blocks, b.BuildsContexts r) :
    ∃ cs, Wrapped r x blocks cs ∧ Exn.Chain r (leaveAll r x blocks) cs x := by
  induction blocks using List.reverseRecOn with
  | nil => exact ⟨[], .nil, .refl⟩
  | append_singleton blocks b ih =>
    obtain ⟨cs, hwrapped, hchain⟩ := ih fun d hd => hblocks d (List.mem_append_left _ hd)
    rw [leaveAll_concat]
    by_cases hcatches : b.Catches r (leaveAll r x blocks)
    · obtain ⟨c, hwraps, hwrapper⟩ := exists_wraps_of_catches (hblocks b List.mem_concat_self) hcatches
      rw [leave_of_wraps hwraps]
      exact ⟨c :: cs, .wraps hwrapped hwraps, .link hwrapper hchain⟩
    · rw [leave_of_not_catches hcatches]
      exact ⟨cs, .passes hwrapped hcatches, hchain⟩

/-- A block that catches an exception wraps it, with it as cause and origin, and any other exception leaves the block as
it is. From the exception that leaves the last block the causes lead, once for each block that wrapped, to the one that
was raised, and its text is theirs in that order. -/
theorem leaveAll_chain {blocks : List Block} (hblocks : ∀ b ∈ blocks, b.BuildsContexts r) (x : Exn) :
    (∀ b ∈ blocks, ∀ y, (b.Catches r y → ∃ c, b.Wraps r y c ∧ b.leave r y = c.wrapping y) ∧
      (¬ b.Catches r y → b.leave r y = y)) ∧
    (∀ α, blocks.foldl (fun z b => b.run r z) (.error x : Except Exn α) = .error (leaveAll r x blocks)) ∧
    ∃ cs, Wrapped r x blocks cs ∧ Exn.Chain r (leaveAll r x blocks) cs x ∧ (cs = [] → leaveAll r x blocks = x) ∧
      (leaveAll r x blocks).text = List.intercalate Exn.separator (cs.map (·.text) ++ [x.text]) := by
  refine ⟨fun b hb y => ⟨fun hcatches => ?_, leave_of_not_catches⟩, fun α => foldl_run_error, ?_⟩
  · obtain ⟨c, hwraps, -⟩ := exists_wraps_of_catches (hblocks b hb) hcatches
    exact ⟨c, hwraps, leave_of_wraps hwraps⟩
  · obtain ⟨cs, hwrapped, hchain⟩ := exists_wrapped_chain hblocks
    refine ⟨cs, hwrapped, hchain, ?_, hchain.text_eq⟩
    rintro rfl
    exact hchain.eq_of_nil

/-- Failed look-ups wrap system errors, those of missing files in a context of their own. -/
def lookupRegistry : Registry where
  classes := ClassTable.standard.extend "LookupFailed" none (some [("FileNotFoundError", "Missing"), ("OSError", "Io")])
  contexts := [⟨"Missing", "missing", "Missing()", "LookupFailed"⟩, ⟨"Io", "io", "Io()", "LookupFailed"⟩]

/-- The context says what it is built for. -/
def readingContext (x : Exn) : ErrorContext := ⟨"Reading", "reading " ++ x.text, "Reading()", "LookupFailed"⟩

/-- A look-up that reads, within a block for another class. -/
def lookupBlocks : List Block := [.converting "LookupFailed", .withContext readingContext, .converting "KeyError"]

def missingFile : Exn := .ofArgs "FileNotFoundError" [.text "a"]

theorem lookupBlocks_buildsContexts : ∀ b ∈ lookupBlocks, b.BuildsContexts lookupRegistry := by
  have hwrapper (c : ErrorContext) (hc : c.wrapper = "LookupFailed") (x : Exn) :
      lookupRegistry.isInstance (c.wrapping x) ClassTable.wrapper = true := by
    show ClassTable.isBelow _ _ c.wrapper = true
    rw [hc]
    decide
  have hentries : lookupRegistry.classes.conversions "LookupFailed" =
      [("FileNotFoundError", "Missing"), ("OSError", "Io")] := by decide
  have hnone : lookupRegistry.classes.conversions "KeyError" = [] := by decide
  refine List.forall_mem_cons.mpr ⟨?_, List.forall_mem_cons.mpr ⟨fun x => hwrapper _ rfl x,
    List.forall_mem_singleton.mpr ?_⟩⟩
  · rw [BuildsContexts, hentries]
    refine List.forall_mem_cons.mpr ⟨fun x => ⟨_, rfl, hwrapper _ rfl x⟩, List.forall_mem_singleton.mpr fun x => ?_⟩
    exact ⟨_, rfl, hwrapper _ rfl x⟩
  · rw [BuildsContexts, hnone]
    exact List.forall_mem_nil _

/-- The missing file is wrapped by the first conversion and then in the context of the reading. -/
theorem lookupBlocks_chain : ∃ cs, Wrapped lookupRegistry missingFile lookupBlocks cs ∧
    Exn.Chain lookupRegistry (leaveAll lookupRegistry missingFile lookupBlocks) cs missingFile ∧
      (leaveAll lookupRegistry missingFile lookupBlocks).text =
        List.intercalate Exn.separator (cs.map (·.text) ++ [missingFile.text]) := by
  obtain ⟨-, -, cs, hwrapped, hchain, -, htext⟩ := leaveAll_chain lookupBlocks_buildsContexts missingFile
  exact ⟨cs, hwrapped, hchain, htext⟩

example : (leaveAll lookupRegistry missingFile lookupBlocks).text =
    "reading missing\n---- source ----\na\n---- source ----\nmissing\n---- source ----\na" := by
  decide

end Block
end TypedErrors
