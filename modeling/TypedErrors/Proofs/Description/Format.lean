import Mathlib
import TypedErrors.Proofs.Description.Index
import TypedErrors.Proofs.Except

/-! # Filling templates

How a template is filled with the texts of its arguments when a description is displayed, and what of that the
check of the template foresees. The two number placeholders alike (`field_of_place`), but the check reads neither
conversions nor how deep specs nest (`Formattable`). -/

namespace TypedErrors
namespace Template

variable {V : Type} {t name spec : Text}

/-- Why a template cannot be filled. -/
inductive FormatError (V : Type) where
  | malformed (e : TemplateError)
  | tooDeep
  | unknownConversion (c : CodePoint)
  | mixedNumbering
  | noArgument (index : Nat)
  | noKey (name : Text)
  | unresolved (v : V) (path : Text)
  | refused (v : V) (spec : Text)

/-- What filling asks of values: the conversions, what a path of attributes and items leads to, and the text of
a value under a spec, which the value may refuse. -/
structure Formatter (V : Type) where
  str : V → V
  repr : V → V
  ascii : V → V
  follow : V → Text → Option V
  format : V → Text → Option Text

inductive NumberStyle where
  | automatic
  | manual
deriving DecidableEq

/-- How placeholders have been numbered so far, and the arguments read. -/
structure Reading where
  style : Option NumberStyle := none
  next : Nat := 0
  read : List Nat := []

/-- Reads an argument by a number of the style. -/
def Reading.take (r : Reading) (args : List V) (style : NumberStyle) (index : Nat) :
    Except (FormatError V) (V × Reading) :=
  if r.style = none ∨ r.style = some style then
    match args[index]? with
    | some v => .ok (v, { r with style := some style, read := index :: r.read })
    | none => .error (.noArgument index)
  else .error .mixedNumbering

/-- The argument that the first part of a name denotes. There are no named arguments. -/
def Reading.argument (r : Reading) (args : List V) (first : Text) : Except (FormatError V) (V × Reading) :=
  if first.isEmpty then { r with next := r.next + 1 }.take args .automatic r.next
  else match index? first with
    | some index => r.take args .manual index
    | none => .error (.noKey first)

namespace Formatter

/-- The value that a name denotes. -/
def field (w : Formatter V) (args : List V) (r : Reading) (name : Text) : Except (FormatError V) (V × Reading) :=
  let (first, path) := name.span fun c => c ≠ .char '.' && c ≠ .char '['
  match r.argument args first with
  | .error e => .error e
  | .ok (v, r) =>
    if path.isEmpty then .ok (v, r)
    else match w.follow v path with
      | some v => .ok (v, r)
      | none => .error (.unresolved v path)

/-- A null character converts nothing. -/
def convert (w : Formatter V) (v : V) : Option CodePoint → Except (FormatError V) V
  | none => .ok v
  | some c =>
    if c = .char '\x00' then .ok v
    else if c = .char 's' then .ok (w.str v)
    else if c = .char 'r' then .ok (w.repr v)
    else if c = .char 'a' then .ok (w.ascii v)
    else .error (.unknownConversion c)

/-- A spec with an opening brace is a template, which `fill` fills. -/
def expand (fill : Reading → Text → Except (FormatError V) (Text × Reading)) (r : Reading) (spec : Text) :
    Except (FormatError V) (Text × Reading) :=
  if .char '{' ∈ spec then fill r spec else .ok (spec, r)

/-- Writes a piece after what is written already. -/
def put (w : Formatter V) (args : List V) (fill : Reading → Text → Except (FormatError V) (Text × Reading))
    (s : Text × Reading) : Piece → Except (FormatError V) (Text × Reading)
  | .literal l => .ok (s.1 ++ l, s.2)
  | .placeholder name k spec => do
    let (v, r) ← w.field args s.2 name
    let v ← w.convert v k
    let (spec, r) ← expand fill r spec
    match w.format v spec with
    | some out => .ok (s.1 ++ out, r)
    | none => .error (.refused v spec)

/-- Fills a template in which templates nest so deep. -/
def fill (w : Formatter V) (args : List V) : (depth : Nat) → Reading → Text →
    Except (FormatError V) (Text × Reading)
  | 0, _, _ => .error .tooDeep
  | d + 1, r, t =>
    match parse t with
    | .error e => .error (.malformed e)
    | .ok ps => ps.foldlM (w.put args (fill w args d)) ([], r)

/-- Fills a template: placeholders may stand in its specs, but not in the specs of those. -/
def formatted (w : Formatter V) (args : List V) (t : Text) : Except (FormatError V) (Text × Reading) :=
  w.fill args 2 {} t

end Formatter

/-! ### Pieces -/

theorem exists_cons_of_bind {x : Except TemplateError (List Piece)} {p : Piece} {ps : List Piece}
    (h : (do return p :: (← x)) = Except.ok ps) : ∃ qs, x = .ok qs ∧ ps = p :: qs := by
  obtain ⟨qs, hqs, hps⟩ := bind_eq_ok.mp h
  exact ⟨qs, hqs, (Except.ok.inj hps).symm⟩

/-- A spec is shorter than the text it stands in. -/
theorem length_spec_lt_of_pieces {place : Place} {acc : Text} {ps : List Piece} {k : Option CodePoint}
    (h : pieces place acc t = .ok ps) (hp : .placeholder name k spec ∈ ps) :
    spec.length < acc.length + t.length := by
  fun_induction pieces place acc t generalizing ps
  case case1 =>
    obtain rfl := Except.ok.inj h
    simp at hp
  -- reading goes on
  case case3 ih | case6 ih | case8 ih | case10 ih | case13 ih | case17 ih | case19 ih | case21 ih | case23 ih |
      case24 ih =>
    have hlt := ih h hp
    simp only [List.length_cons, List.length_nil] at hlt ⊢
    omega
  -- literal text ends
  case case4 ih =>
    obtain ⟨qs, hqs, rfl⟩ := exists_cons_of_bind h
    rcases List.mem_cons.mp hp with hfirst | hp
    · cases hfirst
    · have hlt := ih hqs hp
      simp only [List.length_cons, List.length_nil] at hlt ⊢
      omega
  -- a placeholder ends, and its spec is what was read of it
  case case12 ih | case16 ih | case22 ih =>
    obtain ⟨qs, hqs, rfl⟩ := exists_cons_of_bind h
    rcases List.mem_cons.mp hp with hfirst | hp
    · cases hfirst
      simp only [List.length_reverse, List.length_cons, List.length_nil]
      omega
    · have hlt := ih hqs hp
      simp only [List.length_cons, List.length_nil] at hlt ⊢
      omega
  all_goals cases h

/-- A text without an opening brace has no placeholder. -/
theorem literal_of_pieces {acc : Text} {ps : List Piece} (ht : .char '{' ∉ t)
    (h : pieces .literal acc t = .ok ps) : ∀ p ∈ ps, ∃ l, p = .literal l := by
  generalize hplace : Place.literal = place at h
  fun_induction pieces place acc t generalizing ps
  case case1 =>
    obtain rfl := Except.ok.inj h
    simp
  case case2 | case3 | case4 => exact absurd List.mem_cons_self ht
  case case5 | case7 => cases h
  case case6 ih => exact ih (fun hmem => ht (List.mem_cons_of_mem _ (List.mem_cons_of_mem _ hmem))) rfl h
  case case8 ih => exact ih (fun hmem => ht (List.mem_cons_of_mem _ hmem)) rfl h
  all_goals cases hplace

/-! ### Numbering -/

/-- The reading as the check keeps it. -/
def Reading.numbering (r : Reading) : Numbering :=
  ⟨r.style = some .automatic, r.style = some .manual, r.next, r.read⟩

theorem Reading.take_of_denote {r : Reading} {args : List V} {style : NumberStyle} {index : Nat} {s : Numbering}
    (h : Numbering.denote { r.numbering with
      automatic := r.numbering.automatic || style = .automatic
      manual := r.numbering.manual || style = .manual } args.length index = .ok s) :
    ∃ v r', r.take args style index = .ok (v, r') ∧ r'.numbering = s := by
  rw [Numbering.denote] at h
  split_ifs at h with hmixed hcount
  obtain rfl := Except.ok.inj h
  have hindex : index < args.length := by simpa using hcount
  have hstyle : r.style = none ∨ r.style = some style := by
    obtain ⟨style', next, read⟩ := r
    cases style' with
    | none => exact .inl rfl
    | some style' =>
      right
      cases style' <;> cases style <;> simp [Reading.numbering] at hmixed ⊢
  refine ⟨args[index], { r with style := some style, read := index :: r.read }, ?_, ?_⟩
  · rw [Reading.take, if_pos hstyle, List.getElem?_eq_getElem hindex]
  · rcases hstyle with hstyle | hstyle
    · cases style <;> simp [Reading.numbering, hstyle]
    · cases style <;> simp [Reading.numbering, hstyle]

theorem span_of_isNumber (h : isNumber name = true ∨ name = []) :
    name.span (fun c => c ≠ .char '.' && c ≠ .char '[') = (name, []) := by
  have hall : ∀ c ∈ name, (c ≠ .char '.' && c ≠ .char '[') = true := by
    intro c hc
    rcases h with h | rfl
    · rw [isNumber, Bool.and_eq_true, List.all_eq_true] at h
      have hdigit := h.2 c hc
      have hne : ∀ d : Char, Digit.isDigit d = false → c ≠ .char d := by
        rintro d hd rfl
        rw [CodePoint.char?, Option.map_some, Option.getD_some, hd] at hdigit
        cases hdigit
      simp [hne '.' (by decide), hne '[' (by decide)]
    · cases hc
  rw [List.span_eq_takeWhile_dropWhile, List.takeWhile_eq_self_iff.mpr hall, List.dropWhile_eq_nil_iff.mpr hall]

/-- A placeholder that the check accepts denotes an argument, and numbers what follows alike. -/
theorem field_of_place {w : Formatter V} {args : List V} {r : Reading} {s : Numbering}
    (h : r.numbering.place args.length name = .ok s) :
    ∃ v r', w.field args r name = .ok (v, r') ∧ r'.numbering = s := by
  rw [Numbering.place] at h
  split_ifs at h with hempty hnumber
  · obtain rfl := List.isEmpty_iff.mp hempty
    have hdenote : ∃ v r', ({ r with next := r.next + 1 } : Reading).take args .automatic r.next = .ok (v, r') ∧
        r'.numbering = s := by
      refine Reading.take_of_denote ?_
      simpa [Reading.numbering] using h
    obtain ⟨v, r', htake, hs⟩ := hdenote
    refine ⟨v, r', ?_, hs⟩
    rw [Formatter.field, span_of_isNumber (.inr rfl)]
    simp only [Reading.argument, List.isEmpty_nil, if_true, htake]
  · cases hi : Numeral.readInteger name with
    | error e =>
      rw [hi] at h
      cases h
    | ok i =>
      rw [hi] at h
      have hdenote : ∃ v r', r.take args .manual i.toNat = .ok (v, r') ∧ r'.numbering = s := by
        refine Reading.take_of_denote ?_
        simpa [Reading.numbering] using h
      obtain ⟨v, r', htake, hs⟩ := hdenote
      refine ⟨v, r', ?_, hs⟩
      rw [Formatter.field, span_of_isNumber (.inl hnumber)]
      simp only [Reading.argument, hempty, index?_of_readInteger hnumber hi, htake, List.isEmpty_nil, if_true]
      rfl

/-- Notes a piece. -/
def Numbering.piece (count d : Nat) (s : Numbering) : Piece → Except Misfit Numbering
  | .literal _ => .ok s
  | .placeholder name _ spec => s.place count name >>= (number count d · spec)

theorem number_of_parse {count d : Nat} {s : Numbering} {ps : List Piece} (h : parse t = .ok ps) :
    number count (d + 1) s t = ps.foldlM (Numbering.piece count d) s := by
  rw [number, h]
  congr 1

/-- A text without an opening brace numbers nothing. -/
theorem number_of_not_mem {count d : Nat} {s s' : Numbering} (ht : .char '{' ∉ t)
    (h : number count d s t = .ok s') : s' = s := by
  cases d with
  | zero => exact (Except.ok.inj h).symm
  | succ d =>
    cases hparse : parse t with
    | error e =>
      rw [number, hparse] at h
      cases h
    | ok ps =>
      rw [number_of_parse hparse] at h
      have hliteral := literal_of_pieces ht hparse
      clear hparse
      induction ps with
      | nil => exact (Except.ok.inj h).symm
      | cons p ps ih =>
        obtain ⟨l, rfl⟩ := hliteral p List.mem_cons_self
        exact ih h fun q hq => hliteral q (List.mem_cons_of_mem _ hq)

/-! ### What the check leaves out -/

/-- The conversion is one that there is. -/
def IsConversion (k : Option CodePoint) : Prop :=
  ∀ c ∈ k, c = .char '\x00' ∨ c = .char 's' ∨ c = .char 'r' ∨ c = .char 'a'

/-- All conversions are ones that there are, and templates nest in specs so deep at most. -/
def Formattable : (depth : Nat) → Text → Prop
  | 0, t => .char '{' ∉ t
  | d + 1, t => ∀ ps, parse t = .ok ps → ∀ name k spec, .placeholder name k spec ∈ ps →
    IsConversion k ∧ Formattable d spec

namespace Formatter

variable {w : Formatter V} {args : List V} {fill' : Reading → Text → Except (FormatError V) (Text × Reading)}

theorem exists_convert_iff {v : V} {k : Option CodePoint} : (∃ v', w.convert v k = .ok v') ↔ IsConversion k := by
  cases k with
  | none => exact ⟨fun _ => nofun, fun _ => ⟨v, rfl⟩⟩
  | some c =>
    simp only [IsConversion, Option.mem_some_iff, forall_eq', convert]
    split_ifs with h₀ hs hr ha <;> simp_all

/-- A template is filled, and numbered as the check has it, unless a value refuses its spec. -/
def Fills (w : Formatter V) (x : Except (FormatError V) (Text × Reading)) (s : Numbering) : Prop :=
  (∃ out r, x = .ok (out, r) ∧ r.numbering = s) ∨
    ∃ v spec, w.format v spec = none ∧ x = .error (.refused v spec)

theorem fills_put {d : Nat} {k : Option CodePoint} {r : Reading} {s' : Numbering} (out : Text)
    (hexpand : ∀ (r : Reading) s', number args.length d r.numbering spec = .ok s' →
      w.Fills (expand fill' r spec) s') (hk : IsConversion k)
    (h : r.numbering.place args.length name >>= (number args.length d · spec) = .ok s') :
    w.Fills (w.put args fill' (out, r) (.placeholder name k spec)) s' := by
  obtain ⟨s, hplace, hnumber⟩ := bind_eq_ok.mp h
  obtain ⟨v, r', hfield, rfl⟩ := field_of_place (w := w) hplace
  obtain ⟨v', hconvert⟩ := (exists_convert_iff (w := w) (v := v)).mpr hk
  rcases hexpand r' s' hnumber with ⟨spec', r'', hspec, hs⟩ | ⟨u, spec', hnone, hspec⟩
  · cases hformat : w.format v' spec' with
    | some text =>
      refine .inl ⟨out ++ text, r'', ?_, hs⟩
      simp only [put, hfield, hconvert, hspec, hformat, bind, Except.bind]
    | none =>
      refine .inr ⟨v', spec', hformat, ?_⟩
      simp only [put, hfield, hconvert, hspec, hformat, bind, Except.bind]
  · refine .inr ⟨u, spec', hnone, ?_⟩
    simp only [put, hfield, hconvert, hspec, bind, Except.bind]

/-- Pieces are written one after the other as they are numbered. -/
theorem fills_foldlM {d : Nat} {s' : Numbering} {ps : List Piece} (hps : ∀ name k spec,
      .placeholder name k spec ∈ ps → IsConversion k ∧ ∀ (r : Reading) s',
        number args.length d r.numbering spec = .ok s' → w.Fills (expand fill' r spec) s') (out : Text) (r : Reading)
    (h : ps.foldlM (Numbering.piece args.length d) r.numbering = .ok s') :
    w.Fills (ps.foldlM (w.put args fill') (out, r)) s' := by
  induction ps generalizing out r with
  | nil =>
    obtain rfl := Except.ok.inj h
    exact .inl ⟨out, r, rfl, rfl⟩
  | cons p ps ih =>
    have ih := ih fun name k spec hp => hps name k spec (List.mem_cons_of_mem p hp)
    rw [List.foldlM_cons] at h ⊢
    cases p with
    | literal l => exact ih (out ++ l) r h
    | placeholder name k spec =>
      obtain ⟨s, hp, hrest⟩ := bind_eq_ok.mp h
      obtain ⟨hk, hexpand⟩ := hps name k spec List.mem_cons_self
      rcases fills_put out hexpand hk hp with ⟨out', r', hput, rfl⟩ | ⟨v, spec', hnone, hput⟩
      · rw [hput]
        exact ih out' r' hrest
      · exact .inr ⟨v, spec', hnone, by rw [hput]; rfl⟩

theorem fills_succ {d k : Nat} {r : Reading} {s' : Numbering}
    (hspec : ∀ {spec : Text} {d : Nat} (r : Reading) s', spec.length ≤ d → Formattable k spec →
      number args.length d r.numbering spec = .ok s' → w.Fills (expand (w.fill args k) r spec) s')
    (hd : t.length ≤ d) (ht : Formattable (k + 1) t) (h : number args.length d r.numbering t = .ok s') :
    w.Fills (w.fill args (k + 1) r t) s' := by
  cases d with
  | zero =>
    obtain rfl := List.length_eq_zero_iff.mp (Nat.le_zero.mp hd)
    obtain rfl := Except.ok.inj h
    exact .inl ⟨[], r, rfl, rfl⟩
  | succ d =>
    cases hparse : parse t with
    | error e =>
      rw [number, hparse] at h
      cases h
    | ok ps =>
      rw [number_of_parse hparse] at h
      rw [fill, hparse]
      refine fills_foldlM (fun name k' spec hp => ?_) [] r h
      obtain ⟨hk, hformattable⟩ := ht ps hparse name k' spec hp
      have hlt := length_spec_lt_of_pieces hparse hp
      rw [List.length_nil] at hlt
      exact ⟨hk, fun r s' hnumber => hspec r s' (by omega) hformattable hnumber⟩

theorem fills_of_not_mem {d : Nat} {r : Reading} {s' : Numbering} (ht : .char '{' ∉ t)
    (h : number args.length d r.numbering t = .ok s') : w.Fills (expand fill' r t) s' := by
  obtain rfl := number_of_not_mem ht h
  exact .inl ⟨t, r, if_neg ht, rfl⟩

/-- What the check has numbered is filled, by induction on how deep templates nest. The check has depth enough
for the text. -/
theorem fills_expand (k : Nat) : ∀ {t : Text} {d : Nat} (r : Reading) s', t.length ≤ d → Formattable k t →
    number args.length d r.numbering t = .ok s' → w.Fills (expand (w.fill args k) r t) s' := by
  induction k with
  | zero => exact fun r s' _ ht h => fills_of_not_mem ht h
  | succ k ih =>
    intro t d r s' hd ht h
    by_cases hopen : .char '{' ∈ t
    · rw [expand, if_pos hopen]
      exact fills_succ ih hd ht h
    · exact fills_of_not_mem hopen h

/-! ### What is filled is formattable -/

theorem put_eq_ok {s x : Text × Reading} {k : Option CodePoint}
    (h : w.put args fill' s (.placeholder name k spec) = .ok x) :
    IsConversion k ∧ ∃ r x', expand fill' r spec = .ok x' := by
  obtain ⟨⟨v, r⟩, -, h⟩ := bind_eq_ok.mp h
  obtain ⟨v', hconvert, h⟩ := bind_eq_ok.mp h
  obtain ⟨x', hexpand, -⟩ := bind_eq_ok.mp h
  exact ⟨exists_convert_iff.mp ⟨v', hconvert⟩, r, x', hexpand⟩

theorem foldlM_put_eq_ok {x : Text × Reading} {k : Option CodePoint} : ∀ {ps : List Piece} {s : Text × Reading},
    ps.foldlM (w.put args fill') s = .ok x → .placeholder name k spec ∈ ps →
      IsConversion k ∧ ∃ r x', expand fill' r spec = .ok x'
  | [], _, _, hp => absurd hp List.not_mem_nil
  | p :: ps, s, h, hp => by
    rw [List.foldlM_cons] at h
    obtain ⟨s', hput, hrest⟩ := bind_eq_ok.mp h
    rcases List.mem_cons.mp hp with rfl | hp
    · exact put_eq_ok hput
    · exact foldlM_put_eq_ok hrest hp

theorem formattable_of_not_mem {k : Nat} (ht : .char '{' ∉ t) : Formattable k t := by
  cases k with
  | zero => exact ht
  | succ k =>
    intro ps hparse name k' spec hp
    obtain ⟨l, hl⟩ := literal_of_pieces ht hparse _ hp
    cases hl

theorem formattable_of_fill {k : Nat} {r : Reading} {x : Text × Reading}
    (hspec : ∀ {spec : Text} {r : Reading} {x}, expand (w.fill args k) r spec = .ok x → Formattable k spec)
    (h : w.fill args (k + 1) r t = .ok x) : Formattable (k + 1) t := by
  intro ps hparse name k' spec hp
  rw [fill, hparse] at h
  obtain ⟨hk, r', x', hexpand⟩ := foldlM_put_eq_ok h hp
  exact ⟨hk, hspec hexpand⟩

theorem formattable_of_expand (k : Nat) : ∀ {t : Text} {r : Reading} {x : Text × Reading},
    expand (w.fill args k) r t = .ok x → Formattable k t := by
  induction k with
  | zero =>
    intro t r x h
    by_contra hopen
    rw [expand, if_pos (not_not.mp hopen)] at h
    cases h
  | succ k ih =>
    intro t r x h
    by_cases hopen : .char '{' ∈ t
    · rw [expand, if_pos hopen] at h
      exact formattable_of_fill ih h
    · exact formattable_of_not_mem hopen

end Formatter

/-! ### Checked templates -/

theorem mem_read_of_validate {n : Nat} (h : validate t n = .ok ()) :
    ∃ s, number n t.length {} t = .ok s ∧ ∀ i < n, i ∈ s.used := by
  rw [validate] at h
  obtain ⟨s, hs, h⟩ := bind_eq_ok.mp h
  refine ⟨s, hs, fun i hi => ?_⟩
  split at h
  · cases h
  · next hnone =>
    have := List.find?_eq_none.mp hnone i (List.mem_range.mpr hi)
    simpa using this

/-- A template that fits its arguments is filled with them if its conversions exist and templates nest in its
specs no deeper than once: then every argument is read, and it fails only where a value refuses the spec that it
is handed. Otherwise it is never filled. -/
theorem formatted_of_validate {t : Text} {n : Nat} (h : validate t n = .ok ()) :
    (Formattable 2 t → ∀ (V : Type) (w : Formatter V) (args : List V), args.length = n →
      (∃ out r, w.formatted args t = .ok (out, r) ∧ ∀ i < n, i ∈ r.read) ∨
        ∃ v spec, w.format v spec = none ∧ w.formatted args t = .error (.refused v spec)) ∧
    (¬ Formattable 2 t → ∀ (V : Type) (w : Formatter V) (args : List V) x, w.formatted args t ≠ .ok x) := by
  constructor
  · rintro ht V w args rfl
    obtain ⟨s, hs, hused⟩ := mem_read_of_validate h
    rcases Formatter.fills_succ (r := {}) (Formatter.fills_expand 1) le_rfl ht hs with
      ⟨out, r, hfill, rfl⟩ | ⟨v, spec, hnone, hfill⟩
    · exact .inl ⟨out, r, hfill, hused⟩
    · exact .inr ⟨v, spec, hnone, hfill⟩
  · intro ht V w args x hfill
    exact ht (Formatter.formattable_of_fill (Formatter.formattable_of_expand 1) hfill)

/-- Texts as values: a spec aligns a text to the right of a field that is less than ten wide. -/
def textFormatter : Formatter Text where
  str v := v
  repr v := "'" ++ v ++ "'"
  ascii v := "'" ++ v ++ "'"
  follow _ _ := none
  format v
    | [] => some v
    | [.char '>', .char width] => (Digit.value? width).map fun n => List.replicate (n - v.length) (.char ' ') ++ v
    | _ => none

theorem formattable_nested : Formattable 2 "\x7b0:>\x7b1\x7d\x7d" := by
  have houter : parse "\x7b0:>\x7b1\x7d\x7d" =
      .ok [.literal [], .placeholder "0" none ">\x7b1\x7d", .literal []] := by cbv
  have hinner : parse ">\x7b1\x7d" = .ok [.literal ">", .placeholder "1" none [], .literal []] := by cbv
  rw [Formattable, houter]
  rintro _ ⟨⟩ name k spec hp
  obtain ⟨rfl, rfl, rfl⟩ : name = ("0" : Text) ∧ k = none ∧ spec = (">\x7b1\x7d" : Text) := by simpa using hp
  refine ⟨nofun, ?_⟩
  rw [Formattable, hinner]
  rintro _ ⟨⟩ name k spec hp
  obtain ⟨rfl, rfl, rfl⟩ : name = ("1" : Text) ∧ k = none ∧ spec = [] := by simpa using hp
  exact ⟨nofun, List.not_mem_nil⟩

/-- The template aligns its first argument in a field as wide as the second says. -/
theorem nested_formatted : ∃ out r, textFormatter.formatted ["ab", "4"] "\x7b0:>\x7b1\x7d\x7d" = .ok (out, r) ∧
    ∀ i < 2, i ∈ r.read := by
  have hvalid : validate "\x7b0:>\x7b1\x7d\x7d" 2 = .ok () := by cbv
  rcases (formatted_of_validate hvalid).1 formattable_nested Text textFormatter ["ab", "4"] rfl with
    hfilled | ⟨v, spec, -, hrefused⟩
  · exact hfilled
  · have hfilled : textFormatter.formatted ["ab", "4"] "\x7b0:>\x7b1\x7d\x7d" =
        .ok ("  ab", ⟨some .manual, 0, [1, 0]⟩) := by cbv
    rw [hfilled] at hrefused
    cases hrefused

/-- Both templates fit their arguments, and are not filled with any: there is no conversion `x`, and the last
placeholder stands in a spec of a spec. -/
theorem not_formatted_of_fitting : validate "\x7b!x\x7d" 1 = .ok () ∧ validate "\x7b:\x7b:\x7b\x7d\x7d\x7d" 3 = .ok () ∧
    (∀ v : Text, textFormatter.formatted [v] "\x7b!x\x7d" = .error (.unknownConversion (.char 'x'))) ∧
    ∀ u v w : Text, textFormatter.formatted [u, v, w] "\x7b:\x7b:\x7b\x7d\x7d\x7d" = .error .tooDeep := by
  refine ⟨by cbv, by cbv, fun v => ?_, fun u v w => ?_⟩
  · cbv
  · cbv

end Template
end TypedErrors
