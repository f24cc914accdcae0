import TypedErrors.Proofs.Attribute.Places
import TypedErrors.Proofs.Source.Items

/-! # The text of a declaration

A declaration is read from a stretch of the source that goes from its first token to its last one
(`Declaration.ReadFrom`), and it and all its parts have places that start in this stretch
(`Declaration.IsItem.located`). -/

namespace TypedErrors

variable {file source : String} {d : Declaration}

/-! ### Places of parts -/

structure Field.Placed (P : Span → Prop) (f : Field) : Prop where
  attrs : ∀ a ∈ f.attrs, a.Placed P
  span : TypedErrors.Placed P f.span

structure Variant.Placed (P : Span → Prop) (v : Variant) : Prop where
  attrs : ∀ a ∈ v.attrs, a.Placed P
  fields : ∀ f ∈ v.fields.values, f.Placed P
  span : TypedErrors.Placed P v.span

def Shape.Placed (P : Span → Prop) : Shape → Prop
  | .struct fields | .union fields => ∀ f ∈ fields.values, f.Placed P
  | .enum variants => ∀ v ∈ variants, v.Placed P

/-- The declaration has a place, and all its parts have theirs among `P` with it. -/
structure Declaration.Placed (P : Span → Prop) (d : Declaration) : Prop where
  attrs : ∀ a ∈ d.attrs, a.Placed P
  shape : d.shape.Placed P
  span : ∃ s, d.span = some s ∧ P s

section

variable {P : Span → Prop} {T : Token → Prop} (hT : ∀ t, T t → ∀ stop, P (t.start.spanTo file stop))
include hT

theorem StartsAt.placed {s : Option Span} (h : StartsAt file T s) : ∃ x, s = some x ∧ P x := by
  obtain ⟨t, ht, stop, rfl⟩ := h
  exact ⟨_, rfl, hT t ht stop⟩

theorem StartsAt.placed_of_mem {s : Option Span} (h : StartsAt file T s) : Placed P s := by
  obtain ⟨x, rfl, hx⟩ := h.placed hT
  exact .some hx

theorem RawAttribute.MadeOf.placed {a : RawAttribute} (h : a.MadeOf file T) : a.Placed P := by
  refine ⟨fun t ht => ?_, h.span.placed_of_mem hT⟩
  obtain ⟨u, hu, rfl⟩ := h.tokens t ht
  exact StartsAt.placed_of_mem hT ⟨u, hu, u.stop, rfl⟩

theorem Field.MadeOf.placed {f : Field} (h : f.MadeOf file T) : f.Placed P :=
  ⟨fun a ha => (h.attrs a ha).placed hT, h.span.placed_of_mem hT⟩

theorem Variant.MadeOf.placed {v : Variant} (h : v.MadeOf file T) : v.Placed P :=
  ⟨fun a ha => (h.attrs a ha).placed hT, fun f hf => (h.fields f hf).placed hT, h.span.placed_of_mem hT⟩

theorem Shape.MadeOf.placed {s : Shape} (h : s.MadeOf file T) : s.Placed P := by
  cases s with
  | struct fs => exact fun f hf => (h f hf).placed hT
  | enum vs => exact fun v hv => (h v hv).placed hT
  | union fs => exact fun f hf => (h f hf).placed hT

theorem Declaration.MadeOf.placed (h : d.MadeOf file T) : d.Placed P :=
  ⟨fun a ha => (h.attrs a ha).placed hT, h.shape.placed hT, h.span.placed hT⟩

end

/-! ### Stretches of the source -/

/-- The declaration is an item of the file. It is read from the stretch `text` that stands after `before` in the source,
from a token at the start of the stretch to a token at its end. -/
inductive Declaration.ReadFrom (file source : String) (before text : List Char) (d : Declaration) : Prop
  | intro {a b : Lookahead} {n : Nat} {ts : List Token} {after : List Char} (ha : Reached file source a)
      (h : Parse.declaration file n a = .ok (d, b)) (hts : Takes a ts b)
      (hsource : source.toList = before ++ text ++ after) (hspread : Spread (Position.past {} before) text ts)

/-- The span is of the file, and starts at a character of the stretch `text` that stands after `before`. -/
structure Span.StartsIn (file : String) (before text : List Char) (s : Span) : Prop where
  file : s.file = file
  start : ∃ x y, text = x ++ y ∧ y ≠ [] ∧ (⟨s.line, s.column⟩ : Position) = Position.past {} (before ++ x)

theorem Span.goesOn_startsIn {before text : List Char} : GoesOn (Span.StartsIn file before text) := by
  intro s stop hs
  cases stop <;> exact ⟨hs.file, hs.start⟩

/-- What starts where a token of the stretch does starts in the stretch. -/
theorem Spread.startsIn {before text : List Char} {ts : List Token} (h : Spread (Position.past {} before) text ts) :
    ∀ t ∈ ts, ∀ stop, Span.StartsIn file before text (t.start.spanTo file stop) := by
  intro t ht stop
  obtain ⟨x, y, htext, hy, hstart⟩ := h.start_in t ht
  exact ⟨rfl, x, y, htext, hy, hstart.trans (Position.past_append ..).symm⟩

theorem Reached.lookahead_in {a : Lookahead} (h : Reached file source a) : a.In source.toList := by
  obtain ⟨start, ts, hstart, hts⟩ := h.takes
  have hcursor := Cursor.at_ofString source
  exact hts.lookahead_in (Lookahead.in_of_fetch hcursor hstart)

/-- All places of an item start in the text that it is read from. -/
theorem Declaration.IsItem.located (h : d.IsItem file source) :
    ∃ before text, d.ReadFrom file source before text ∧ d.Placed (Span.StartsIn file before text) := by
  obtain ⟨a, n, b, ha, hread⟩ := h
  obtain ⟨ts, hts, hmade⟩ := Parse.declaration_reads n a d b hread
  have hmade : d.MadeOf file (· ∈ ts) := hmade _ fun _ ht => ht
  cases ts with
  | nil =>
    obtain ⟨t, ht, -⟩ := hmade.span
    cases ht
  | cons t ts =>
    obtain ⟨before, hat⟩ := ha.lookahead_in t hts.head
    obtain ⟨text, after, hsource, hspread⟩ := hts.spread hat
    exact ⟨before, text, .intro ha hread hts hsource hspread, hmade.placed hspread.startsIn⟩

end TypedErrors
