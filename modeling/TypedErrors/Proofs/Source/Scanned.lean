import TypedErrors.Proofs.Source.Ahead
import TypedErrors.Proofs.Source.Items

/-! # What is read as strings and names

A string is scanned from its quote on, and a name as far as there are characters of names (`Lexeme.Scanned`). So is
every token that is taken, and a declaration is made of such tokens (`scanned_of_loadSource`). -/

namespace TypedErrors

variable {cs : List Char} {n : Nat} {t : Terminal}

namespace Scan

variable {accepts : List Terminal}

theorem exists_of_fixed? {spelling? : Terminal → Option String} {ts : List Terminal}
    (h : fixed? spelling? cs ts = some (t, n)) : ∃ s, spelling? t = some s := by
  induction ts with
  | nil => cases h
  | cons u ts ih =>
    rw [fixed?] at h
    split at h
    · next s hs =>
      split_ifs at h
      · obtain ⟨rfl, -⟩ := Prod.mk.inj (Option.some.inj h)
        exact ⟨s, hs⟩
      · exact ih h
    · exact ih h

theorem nameOrWord_ne_string (text : List Char) : nameOrWord accepts text ≠ .string := by
  rw [nameOrWord]
  cases hfind : accepts.find? fun u => u.word? = some (String.ofList text) with
  | none => simp
  | some u =>
    rintro rfl
    have hword := List.find?_some hfind
    cases of_decide_eq_true hword

theorem reads_of_terminal? (h : terminal? accepts cs = some (t, n)) :
    (t = .string → string? cs = some n) ∧ (t = .name → name? cs = some n) := by
  have hfixed {spelling? : Terminal → Option String} {ts : List Terminal} (hstring : spelling? .string = none)
      (hname : spelling? .name = none) (h : fixed? spelling? cs ts = some (t, n)) :
      (t = .string → string? cs = some n) ∧ (t = .name → name? cs = some n) := by
    obtain ⟨s, hs⟩ := exists_of_fixed? h
    constructor
    · rintro rfl
      cases hs.symm.trans hstring
    · rintro rfl
      cases hs.symm.trans hname
  rw [terminal?_eq] at h
  simp only [Option.orElse_eq_orElse, Option.orElse_eq_or, Option.or_eq_some_iff] at h
  rcases h with h | ⟨-, h | ⟨-, h | ⟨-, h | ⟨-, h | ⟨-, h | ⟨-, h | ⟨-, h⟩⟩⟩⟩⟩⟩⟩
  · obtain ⟨rfl, -⟩ := classRead_eq_some h
    exact ⟨nofun, nofun⟩
  · obtain ⟨rfl, -⟩ := classRead_eq_some h
    exact ⟨nofun, nofun⟩
  · obtain ⟨⟨u, m⟩, hread, heq⟩ := Option.map_eq_some_iff.mp h
    obtain ⟨rfl, rfl⟩ := Prod.mk.inj heq
    exact ⟨fun hstring => absurd hstring (nameOrWord_ne_string _), fun _ => (classRead_eq_some hread).2⟩
  · obtain ⟨rfl, hread⟩ := classRead_eq_some h
    exact ⟨fun _ => hread, nofun⟩
  · obtain ⟨rfl, -⟩ := classRead_eq_some h
    exact ⟨nofun, nofun⟩
  · obtain ⟨rfl, -⟩ := classRead_eq_some h
    exact ⟨nofun, nofun⟩
  · split_ifs at h
    exact hfixed rfl rfl h
  · exact hfixed rfl rfl h

/-- A string starts with its quote. -/
theorem head_of_string? (h : string? cs = some n) : (cs.take n).head? = some '"' := by
  unfold string? at h
  split at h
  · next cs =>
    have hn := le_of_stringRest? h
    obtain ⟨m, rfl⟩ : ∃ m, n = m + 1 := ⟨n - 1, by omega⟩
    rfl
  · cases h

end Scan

/-! ### What is read with a scanned token ahead -/

/-- No string has the prefix, and a name is made of the characters of names. -/
structure Lexeme.Scanned (l : Lexeme) : Prop where
  string : ¬ l.IsRaw
  name : l.terminal = .name → ∀ c ∈ l.text.toList, Scan.isNamePart c = true

/-- The token ahead is scanned. -/
def Lookahead.Scanned (a : Lookahead) : Prop := ∀ t, a.token? = some t → t.lexeme.Scanned

theorem Lookahead.scanned_of_fetch {site : Site} {last : Option Token} {c : Cursor} {a : Lookahead}
    (h : fetch site last c = .ok a) : a.Scanned := by
  rw [fetch] at h
  split at h
  · next t after hnext =>
    obtain rfl := Except.ok.inj h
    intro t' ht'
    obtain rfl := Option.some.inj ht'
    simp only [Scan.next] at hnext
    split at hnext
    · cases hnext
    · split at hnext
      · next u m hterminal =>
        obtain ⟨rfl, -⟩ := Scan.Outcome.token.inj hnext
        obtain ⟨hstring, hname⟩ := Scan.reads_of_terminal? hterminal
        constructor
        · rintro ⟨hu, hraw⟩
          rw [Scan.take, Token.lexeme, String.toList_ofList, Scan.head_of_string? (hstring hu)] at hraw
          cases hraw
        · intro hu
          rw [Scan.take, Token.lexeme, String.toList_ofList]
          exact Scan.isNamePart_of_name? (hname hu)
      · split at hnext <;> cases hnext
  · split_ifs at h
    obtain rfl := Except.ok.inj h
    rintro t ⟨⟩
  · cases h
  · cases h

theorem Takes.scanned {a b : Lookahead} {ts : List Token} (h : Takes a ts b) (ha : a.Scanned) :
    (∀ t ∈ ts, t.lexeme.Scanned) ∧ b.Scanned := by
  induction h with
  | nil => exact ⟨List.forall_mem_nil _, ha⟩
  | cons ht hfetch _ ih =>
    obtain ⟨hts, hb⟩ := ih (Lookahead.scanned_of_fetch hfetch)
    exact ⟨List.forall_mem_cons.mpr ⟨ha _ ht, hts⟩, hb⟩

/-! ### Strings -/

variable {α : Type} {file : String}

/-- No text has the prefix. -/
def Unprefixed (ss : List String) : Prop := ∀ s ∈ ss, s.toList.head? ≠ some 'r'

theorem Unprefixed.append {ss ts : List String} (hs : Unprefixed ss) (ht : Unprefixed ts) : Unprefixed (ss ++ ts) :=
  List.forall_mem_append.mpr ⟨hs, ht⟩

theorem unprefixed_flatMap {xs : List α} {strings : α → List String} (h : ∀ x ∈ xs, Unprefixed (strings x)) :
    Unprefixed (xs.flatMap strings) := by
  intro s hs
  obtain ⟨x, hx, hs⟩ := List.mem_flatMap.mp hs
  exact h x hx s hs

theorem SpelledBy.unprefixed {ss : List String} (h : SpelledBy (fun t => t.lexeme.Scanned) ss) : Unprefixed ss := by
  intro s hs hhead
  obtain ⟨t, ht, hterminal, rfl⟩ := h s hs
  exact ht.string ⟨hterminal, hhead⟩

/-! ### Declarations -/

/-- A block is scanned token by token. -/
def RawAttribute.Scanned (a : RawAttribute) : Prop := ∀ t ∈ a.tokens, t.lexeme.Scanned

theorem RawAttribute.Scanned.unprefixed {a : RawAttribute} (h : a.Scanned) : Unprefixed a.strings := by
  intro s hs
  obtain ⟨l, hl, rfl⟩ := List.mem_map.mp hs
  obtain ⟨hl, hstring⟩ := List.mem_filter.mp hl
  obtain ⟨t, ht, rfl⟩ := List.mem_map.mp hl
  exact fun hraw => (h t ht).string ⟨of_decide_eq_true hstring, hraw⟩

/-- The variants of an enum that is declared. -/
def Shape.variants : Shape → List Variant
  | .struct _ | .union _ => []
  | .enum vs => vs

/-- The blocks of a declaration and of its variants are scanned, and all its strings are without the prefix. -/
structure Declaration.Scanned (d : Declaration) : Prop where
  attrs : ∀ a ∈ d.attrs, a.Scanned
  variants : ∀ v ∈ d.shape.variants, ∀ a ∈ v.attrs, a.Scanned
  strings : Unprefixed d.strings

theorem RawAttribute.MadeOf.scanned {a : RawAttribute} (h : a.MadeOf file fun t => t.lexeme.Scanned) : a.Scanned := by
  intro t ht
  obtain ⟨u, hu, rfl⟩ := h.tokens t ht
  exact hu

theorem unprefixed_of_madeOf {attrs : List RawAttribute} (h : ∀ a ∈ attrs, a.MadeOf file fun t => t.lexeme.Scanned) :
    Unprefixed (attrs.flatMap RawAttribute.strings) :=
  unprefixed_flatMap fun a ha => (h a ha).scanned.unprefixed

theorem Field.MadeOf.unprefixed {f : Field} (h : f.MadeOf file fun t => t.lexeme.Scanned) : Unprefixed f.strings :=
  (unprefixed_of_madeOf h.attrs).append h.type.unprefixed

theorem Variant.MadeOf.unprefixed {v : Variant} (h : v.MadeOf file fun t => t.lexeme.Scanned) : Unprefixed v.strings :=
  (unprefixed_of_madeOf h.attrs).append (unprefixed_flatMap fun f hf => (h.fields f hf).unprefixed)

theorem Shape.MadeOf.unprefixed {s : Shape} (h : s.MadeOf file fun t => t.lexeme.Scanned) : Unprefixed s.strings := by
  cases s with
  | struct fs => exact unprefixed_flatMap fun f hf => (h f hf).unprefixed
  | enum vs => exact unprefixed_flatMap fun v hv => (h v hv).unprefixed
  | union fs => exact unprefixed_flatMap fun f hf => (h f hf).unprefixed

theorem Declaration.MadeOf.scanned {d : Declaration} (h : d.MadeOf file fun t => t.lexeme.Scanned) : d.Scanned := by
  refine ⟨fun a ha => (h.attrs a ha).scanned, ?_, (unprefixed_of_madeOf h.attrs).append h.shape.unprefixed⟩
  obtain ⟨hshape, -⟩ := And.intro h.shape trivial
  revert hshape
  cases d.shape with
  | struct fs => exact fun _ => List.forall_mem_nil _
  | enum vs => exact fun hvs v hv a ha => ((hvs v hv).attrs a ha).scanned
  | union fs => exact fun _ => List.forall_mem_nil _

theorem scanned_of_loadSource {limits : Limits} {source : String} {f : SourceFile}
    (h : loadSource limits file source = .ok f) : ∀ d ∈ f.declarations, d.Scanned := by
  intro d hd
  obtain ⟨a, n, b, ha, hread⟩ := (items_of_loadSource h).2 d hd
  obtain ⟨start, us, hstart, hus⟩ := ha.takes
  obtain ⟨ts, hts, hmade⟩ := Parse.declaration_reads n a d b hread
  obtain ⟨-, hscanned⟩ := hus.scanned (Lookahead.scanned_of_fetch hstart)
  exact (hmade _ (hts.scanned hscanned).1).scanned

end TypedErrors
