import TypedErrors.Proofs.Description.Format
import TypedErrors.Proofs.Description.Template

/-! # Which templates fit their arguments

A template fits if it and the specs in it can be read, its placeholders are numbered in one of the two styles, and the
numbers that they denote are those of the arguments (`validate_iff`). -/

namespace TypedErrors

variable {name : Text} {cs : List Char}

/-! ### Numbers that can be read -/

/-- A name of decimal digits of any script, no more of them than are read as a number. -/
structure IsNumeral (name : Text) : Prop where
  ne_nil : name ≠ []
  decimal : ∀ p ∈ name, ∃ c, p = .char c ∧ Digit.isDecimal c = true
  length_le : name.length ≤ NumeralError.digitLimit

namespace Numeral

theorem ne_underscore {c : Char} (h : c.isDigit = true) : c ≠ '_' := by
  rintro rfl
  exact absurd h (by decide)

theorem wellSpaced_of_isDigit (h : ∀ c ∈ cs, c.isDigit = true) (hne : cs ≠ []) : wellSpaced cs = true := by
  fun_induction wellSpaced cs with
  | case1 => exact absurd rfl hne
  | case2 => exact absurd rfl (ne_underscore (h _ List.mem_cons_self))
  | case3 => rfl
  | case4 => exact absurd rfl (ne_underscore (h _ (List.mem_cons_of_mem _ List.mem_cons_self)))
  | case5 _ _ _ _ _ ih => exact ih (fun c hc => h c (List.mem_cons_of_mem _ hc)) (List.cons_ne_nil _ _)

theorem magnitude?_of_isDigit (h : ∀ c ∈ cs, c.isDigit = true) (hne : cs ≠ []) : magnitude? 10 cs =
    if NumeralError.digitLimit < cs.length then .error (some cs.length) else .ok (spelled 0 cs) := by
  have hcount : cs.countP (· ≠ '_') = cs.length :=
    List.countP_eq_length.mpr fun c hc => decide_eq_true (ne_underscore (h c hc))
  rw [magnitude?, spanDigits_of_isDigit h]
  simp only [wellSpaced_of_isDigit h hne, hcount, value_eq_spelled h, Bool.not_true, Bool.false_eq_true, if_false,
    true_and, ne_eq, not_true_eq_false]

/-- What a decimal digit is in plain form. -/
theorem exists_plainChar? {c : Char} (h : Digit.isDecimal c = true) : ∃ c', plainChar? (.char c) = some c' := by
  obtain ⟨d, hd⟩ := Option.isSome_iff_exists.mp h
  rw [plainChar?]
  split_ifs with hascii hblank
  · exact ⟨c, rfl⟩
  · exact ⟨' ', rfl⟩
  · exact ⟨_, by rw [hd]; rfl⟩

theorem exists_plain? (h : ∀ p ∈ name, ∃ c, p = .char c ∧ Digit.isDecimal c = true) :
    ∃ cs, name.mapM plainChar? = some cs ∧ cs.length = name.length := by
  induction name with
  | nil => exact ⟨[], rfl, rfl⟩
  | cons p name ih =>
    obtain ⟨⟨c, rfl, hc⟩, hrest⟩ := List.forall_mem_cons.mp h
    obtain ⟨c', hc'⟩ := exists_plainChar? hc
    obtain ⟨cs, hcs, hlen⟩ := ih hrest
    exact ⟨c' :: cs, by rw [List.mapM_cons, hc', hcs]; rfl, by rw [List.length_cons, hlen, List.length_cons]⟩

end Numeral

namespace Template

variable {s s' : Numbering} {names : List Text} {count d : Nat} {t : Text}

theorem decimal_of_index? {n i : Nat}
    (h : name.foldlM (fun n c => (c.char?.bind Digit.value?).map (n * 10 + ·)) n = some i) :
    ∀ p ∈ name, ∃ c, p = .char c ∧ Digit.isDecimal c = true := by
  induction name generalizing n with
  | nil => exact List.forall_mem_nil _
  | cons p name ih =>
    rw [List.foldlM_cons] at h
    obtain ⟨m, hm, hrest⟩ := Option.bind_eq_some_iff.mp h
    obtain ⟨d, hd, -⟩ := Option.map_eq_some_iff.mp hm
    obtain ⟨c, hc, hvalue⟩ := Option.bind_eq_some_iff.mp hd
    cases p with
    | surrogate i => cases hc
    | char c' =>
      obtain rfl := Option.some.inj hc
      exact List.forall_mem_cons.mpr ⟨⟨_, rfl, Option.isSome_iff_exists.mpr ⟨d, hvalue⟩⟩, ih hrest⟩

theorem isNumber_of_decimal (hne : name ≠ []) (h : ∀ p ∈ name, ∃ c, p = .char c ∧ Digit.isDecimal c = true) :
    isNumber name = true := by
  rw [isNumber, Bool.and_eq_true, List.all_eq_true]
  refine ⟨by simpa using hne, fun p hp => ?_⟩
  obtain ⟨c, rfl, hc⟩ := h p hp
  rw [CodePoint.char?, Option.map_some, Option.getD_some, Digit.isDigit, hc, Bool.true_or]

/-- Decimal digits are read unless there are too many of them. -/
theorem readInteger_of_decimal (hne : name ≠ []) (h : ∀ p ∈ name, ∃ c, p = .char c ∧ Digit.isDecimal c = true) :
    ∃ n : Nat, index? name = some n ∧ Numeral.readInteger name =
      if NumeralError.digitLimit < name.length then .error (.tooManyDigits name.length) else .ok n := by
  obtain ⟨cs, hcs, hlen⟩ := Numeral.exists_plain? h
  have hnumber := isNumber_of_decimal hne h
  rw [isNumber, Bool.and_eq_true, List.all_eq_true] at hnumber
  obtain ⟨hdigits, hfold⟩ := foldlM_of_plain hnumber.2 hcs 0
  have hcsne : cs ≠ [] := by
    rintro rfl
    exact hne (List.length_eq_zero_iff.mp hlen.symm)
  refine ⟨_, hfold, ?_⟩
  rw [Numeral.readInteger, show Numeral.plain? name = some cs from hcs]
  simp only [Numeral.sign_trim_of_isDigit hdigits, Numeral.magnitude?_of_isDigit hdigits hcsne, hlen,
    Bool.false_eq_true, if_false]
  split_ifs <;> rfl

/-- Of the names that look like numbers those are read that are numerals, as what their digits spell. -/
theorem readInteger_eq_ok_iff {i : Int} (hname : isNumber name = true) :
    Numeral.readInteger name = .ok i ↔ IsNumeral name ∧ i = (index? name).getD 0 := by
  have hne : name ≠ [] := by
    rintro rfl
    cases hname
  constructor
  · intro h
    have hdecimal := decimal_of_index? (index?_of_readInteger hname h)
    obtain ⟨n, hn, hread⟩ := readInteger_of_decimal hne hdecimal
    rw [hread] at h
    split_ifs at h with hmany
    exact ⟨⟨hne, hdecimal, not_lt.mp hmany⟩, by rw [hn, ← Except.ok.inj h]; rfl⟩
  · rintro ⟨⟨-, hdecimal, hlen⟩, rfl⟩
    obtain ⟨n, hn, hread⟩ := readInteger_of_decimal hne hdecimal
    rw [hread, if_neg (not_lt.mpr hlen), hn]
    rfl

/-! ### What placeholders denote -/

/-- The arguments that placeholders denote: those of their names or, where a name is empty, the next one in order of
occurrence, from `next` on. -/
def denoted (next : Nat) : List Text → List Nat
  | [] => []
  | name :: names =>
    if name = [] then next :: denoted (next + 1) names else (index? name).getD 0 :: denoted next names

namespace Numbering

/-- The numbering after a placeholder. -/
def note (s : Numbering) (name : Text) : Numbering :=
  if name = [] then { s with automatic := true, next := s.next + 1, used := s.next :: s.used }
  else { s with manual := true, used := (index? name).getD 0 :: s.used }

/-- Both styles of numbering occur. -/
def IsMixed (s : Numbering) : Prop := s.automatic = true ∧ s.manual = true

theorem note_nil : s.note [] = { s with automatic := true, next := s.next + 1, used := s.next :: s.used } := rfl

theorem note_of_ne_nil (h : name ≠ []) :
    s.note name = { s with manual := true, used := (index? name).getD 0 :: s.used } := if_neg h

theorem automatic_foldl : (names.foldl note s).automatic = true ↔ s.automatic = true ∨ [] ∈ names := by
  induction names generalizing s with
  | nil => simp
  | cons name names ih =>
    rw [List.foldl_cons, ih]
    by_cases hname : name = []
    · subst hname
      simp [note_nil]
    · simp [note_of_ne_nil hname, Ne.symm hname]

theorem manual_foldl : (names.foldl note s).manual = true ↔ s.manual = true ∨ ∃ name ∈ names, name ≠ [] := by
  induction names generalizing s with
  | nil => simp
  | cons name names ih =>
    rw [List.foldl_cons, ih]
    by_cases hname : name = []
    · subst hname
      simp [note_nil]
    · simp [note_of_ne_nil hname, hname]

theorem mem_used_foldl {i : Nat} : i ∈ (names.foldl note s).used ↔ i ∈ s.used ∨ i ∈ denoted s.next names := by
  induction names generalizing s with
  | nil => simp [denoted]
  | cons name names ih =>
    rw [List.foldl_cons, ih, denoted]
    by_cases hname : name = []
    · subst hname
      simp only [note_nil, if_true, List.mem_cons]
      tauto
    · simp only [note_of_ne_nil hname, if_neg hname, List.mem_cons]
      tauto

theorem isMixed_foldl (h : s.IsMixed) : (names.foldl note s).IsMixed :=
  ⟨automatic_foldl.mpr (.inl h.1), manual_foldl.mpr (.inl h.2)⟩

theorem denote_eq_ok {i : Nat} :
    s.denote count i = .ok s' ↔ ¬ s.IsMixed ∧ i < count ∧ s' = { s with used := i :: s.used } := by
  rw [denote, IsMixed, ← Bool.and_eq_true]
  split_ifs with hmixed hcount
  · simp [hmixed]
  · simp [hmixed, not_lt.mpr hcount]
  · simp [hmixed, not_le.mp hcount, eq_comm]

theorem place_eq_ok : s.place count name = .ok s' ↔ (name = [] ∨ IsNumeral name) ∧ ¬ (s.note name).IsMixed ∧
    (∀ i ∈ denoted s.next [name], i < count) ∧ s' = s.note name := by
  by_cases hname : name = []
  · subst hname
    rw [place, List.isEmpty_nil, if_pos rfl, denote_eq_ok, note_nil]
    simp [denoted, IsMixed]
  · have hempty : name.isEmpty = false := by simpa using hname
    rw [place, hempty, if_neg Bool.false_ne_true]
    by_cases hnumber : isNumber name = true
    · rw [if_pos hnumber]
      cases hread : Numeral.readInteger name with
      | ok i =>
        obtain ⟨hnumeral, rfl⟩ := (readInteger_eq_ok_iff hnumber).mp hread
        rw [note_of_ne_nil hname]
        simp only [denote_eq_ok, denoted, hname, hnumeral]
        simp [IsMixed]
      | error e =>
        have hnumeral : ¬ IsNumeral name := fun h => by
          have hok := (readInteger_eq_ok_iff hnumber).mpr ⟨h, rfl⟩
          rw [hread] at hok
          cases hok
        simp [hname, hnumeral]
    · have hnumeral : ¬ IsNumeral name := fun h => hnumber (isNumber_of_decimal h.ne_nil h.decimal)
      simp [hnumber, hname, hnumeral]

theorem foldlM_place_eq_ok (hs : ¬ s.IsMixed) : names.foldlM (fun s name => s.place count name) s = .ok s' ↔
    (∀ name ∈ names, name = [] ∨ IsNumeral name) ∧ ¬ (names.foldl note s).IsMixed ∧
      (∀ i ∈ denoted s.next names, i < count) ∧ s' = names.foldl note s := by
  induction names generalizing s with
  | nil => simp [hs, denoted, pure_eq_ok]
  | cons name names ih =>
    have hdenoted : (∀ i ∈ denoted s.next (name :: names), i < count) ↔
        (∀ i ∈ denoted s.next [name], i < count) ∧ ∀ i ∈ denoted (s.note name).next names, i < count := by
      by_cases hname : name = []
      · subst hname
        simp [denoted, note_nil]
      · simp [denoted, note_of_ne_nil hname, hname]
    rw [List.foldlM_cons, bind_eq_ok, List.foldl_cons, hdenoted, List.forall_mem_cons]
    simp only [place_eq_ok]
    constructor
    · rintro ⟨_, ⟨hname, hmixed, hcount, rfl⟩, h⟩
      obtain ⟨hnames, hmixed', hcount', rfl⟩ := (ih hmixed).mp h
      exact ⟨⟨hname, hnames⟩, hmixed', ⟨hcount, hcount'⟩, rfl⟩
    · rintro ⟨⟨hname, hnames⟩, hmixed, ⟨hcount, hcount'⟩, rfl⟩
      have hnote : ¬ (s.note name).IsMixed := fun h => hmixed (isMixed_foldl h)
      exact ⟨_, ⟨hname, hnote, hcount, rfl⟩, (ih hnote).mpr ⟨hnames, hmixed, hcount', rfl⟩⟩

end Numbering

/-! ### The placeholders of a text -/

/-- A text is the spec of a placeholder of another. -/
def IsSpec (spec t : Text) : Prop := ∃ ps name k, parse t = .ok ps ∧ .placeholder name k spec ∈ ps

theorem IsSpec.length_lt {spec : Text} (h : IsSpec spec t) : spec.length < t.length := by
  obtain ⟨ps, name, k, hparse, hp⟩ := h
  have hlt := length_spec_lt_of_pieces hparse hp
  rwa [List.length_nil, Nat.zero_add] at hlt

/-- Specs nest only so deep. -/
theorem wellFounded_isSpec : WellFounded IsSpec :=
  Subrelation.wf IsSpec.length_lt (measure List.length).wf

/-- The names in a piece: that of the placeholder, and then those `inner` its spec. -/
def namesIn (inner : Text → List Text) : Piece → List Text
  | .literal _ => []
  | .placeholder name _ spec => name :: inner spec

/-- A text can be read, and so can all specs in it; its placeholders have the names, each before those in its spec. -/
inductive Named : Text → List Text → Prop
  | read {t : Text} {ps : List Piece} {inner : Text → List Text} (hparse : parse t = .ok ps)
      (hinner : ∀ name k spec, .placeholder name k spec ∈ ps → Named spec (inner spec)) :
      Named t (ps.flatMap (namesIn inner))

theorem parse_nil : parse [] = .ok [.literal []] := rfl

theorem named_nil : Named [] [] := by
  refine @Named.read _ _ (fun _ => []) parse_nil fun name k spec hp => ?_
  cases List.mem_singleton.mp hp

/-- The name of a placeholder. -/
def Mark.name? : Mark → Option Text
  | .name n => some n
  | .malformed _ => none

/-- The marks in a piece, where specs are read to a depth. -/
def marksIn (d : Nat) : Piece → List Mark
  | .literal _ => []
  | .placeholder name _ spec => .name name :: marks d spec

theorem marks_succ {ps : List Piece} (hparse : parse t = .ok ps) : marks (d + 1) t = ps.flatMap (marksIn d) := by
  rw [marks, hparse]
  show ps.flatMap _ = _
  congr 1

theorem marks_nil : ∀ d, marks d [] = []
  | 0 => rfl
  | _ + 1 => marks_succ parse_nil

theorem flatMap_congr_specs {α : Type} {ps : List Piece} {f g : Piece → List α}
    (hliteral : ∀ l, f (.literal l) = g (.literal l))
    (hspec : ∀ name k spec, .placeholder name k spec ∈ ps → f (.placeholder name k spec) = g (.placeholder name k spec)) :
    ps.flatMap f = ps.flatMap g := by
  refine List.flatMap_congr fun p hp => ?_
  cases p with
  | literal l => exact hliteral l
  | placeholder name k spec => exact hspec name k spec hp

/-- Specs are read to their end at any depth that is no less than the length of the text. -/
theorem marks_eq_of_le : ∀ {d d' : Nat} {t : Text}, t.length ≤ d → t.length ≤ d' → marks d t = marks d' t
  | 0, d', t, hd, _ => by
    obtain rfl := List.length_eq_zero_iff.mp (Nat.le_zero.mp hd)
    rw [marks_nil, marks_nil]
  | d, 0, t, _, hd' => by
    obtain rfl := List.length_eq_zero_iff.mp (Nat.le_zero.mp hd')
    rw [marks_nil, marks_nil]
  | d + 1, d' + 1, t, hd, hd' => by
    cases hparse : parse t with
    | error e => rw [marks, marks, hparse]
    | ok ps =>
      rw [marks_succ hparse, marks_succ hparse]
      refine flatMap_congr_specs (fun _ => rfl) fun name k spec hp => ?_
      have hlt := IsSpec.length_lt ⟨ps, name, k, hparse, hp⟩
      have hmarks : marks d spec = marks d' spec := marks_eq_of_le (by omega) (by omega)
      rw [marksIn, marksIn, hmarks]

/-- Where the placeholders of a text have names, these are its marks. -/
theorem Named.marks_eq (h : Named t names) : ∀ {d : Nat}, t.length ≤ d → marks d t = names.map .name := by
  induction h with
  | @read t ps inner hparse hinner ih =>
    rintro (_ | d) hd
    · obtain rfl := List.length_eq_zero_iff.mp (Nat.le_zero.mp hd)
      obtain rfl := Except.ok.inj (parse_nil.symm.trans hparse)
      rfl
    · rw [marks_succ hparse, List.map_flatMap]
      refine flatMap_congr_specs (fun _ => rfl) fun name k spec hp => ?_
      have hlt := IsSpec.length_lt ⟨ps, name, k, hparse, hp⟩
      rw [marksIn, namesIn, List.map_cons, ih name k spec hp (by omega)]

/-- Where all marks of a text are names, these are the names of its placeholders. -/
theorem named_of_marks : ∀ {d : Nat} {t : Text}, t.length ≤ d → (∀ m ∈ marks d t, ∃ n, m = .name n) →
    Named t ((marks d t).filterMap Mark.name?)
  | 0, t, hd, _ => by
    obtain rfl := List.length_eq_zero_iff.mp (Nat.le_zero.mp hd)
    exact named_nil
  | d + 1, t, hd, hmarks => by
    cases hparse : parse t with
    | error e =>
      rw [marks, hparse] at hmarks
      obtain ⟨n, hn⟩ := hmarks _ List.mem_cons_self
      cases hn
    | ok ps =>
      rw [marks_succ hparse] at hmarks ⊢
      have hnames : (ps.flatMap (marksIn d)).filterMap Mark.name? =
          ps.flatMap (namesIn fun spec => (marks d spec).filterMap Mark.name?) := by
        rw [List.filterMap_flatMap]
        exact flatMap_congr_specs (fun _ => rfl) fun _ _ _ _ => rfl
      rw [hnames]
      refine .read hparse fun name k spec hp => ?_
      have hlt := IsSpec.length_lt ⟨ps, name, k, hparse, hp⟩
      refine named_of_marks (by omega) fun m hm => hmarks m ?_
      exact List.mem_flatMap.mpr ⟨_, hp, List.mem_cons_of_mem _ hm⟩

theorem forall_name_of_foldlM {ms : List Mark} (h : ms.foldlM (Numbering.mark count) s = .ok s') :
    ∀ m ∈ ms, ∃ n, m = .name n := by
  induction ms generalizing s with
  | nil => exact List.forall_mem_nil _
  | cons m ms ih =>
    obtain ⟨r, hr, hrest⟩ := bind_eq_ok.mp h
    refine List.forall_mem_cons.mpr ⟨?_, ih hrest⟩
    cases m with
    | name n => exact ⟨n, rfl⟩
    | malformed e => cases hr

theorem foldlM_map_name : (names.map Mark.name).foldlM (Numbering.mark count) s =
    names.foldlM (fun s name => s.place count name) s := by
  rw [List.foldlM_map]
  rfl

/-- A text is numbered just if its placeholders have names that are. -/
theorem number_eq_ok_iff : number count t.length s t = .ok s' ↔
    ∃ names, Named t names ∧ names.foldlM (fun s name => s.place count name) s = .ok s' := by
  rw [number_eq_foldlM]
  constructor
  · intro h
    have hnamed := named_of_marks le_rfl (forall_name_of_foldlM h)
    refine ⟨_, hnamed, ?_⟩
    rwa [hnamed.marks_eq le_rfl, foldlM_map_name] at h
  · rintro ⟨names, hnamed, h⟩
    rwa [hnamed.marks_eq le_rfl, foldlM_map_name]

/-- Specs nest only so deep in a text, which reading them to a depth of its length exhausts. The text fits so many
arguments just if it and the specs in it can be read, the names of its placeholders are empty or numerals and not some
this and some that, and what they denote are the numbers of the arguments. -/
theorem validate_iff : WellFounded IsSpec ∧
    (∀ count e s t, number count (t.length + e) s t = number count t.length s t) ∧
    ∀ t n, validate t n = .ok () ↔ ∃ names, Named t names ∧ (∀ name ∈ names, name = [] ∨ IsNumeral name) ∧
      ¬ ([] ∈ names ∧ ∃ name ∈ names, name ≠ []) ∧ ∀ i, i ∈ denoted 0 names ↔ i < n := by
  refine ⟨wellFounded_isSpec, fun count e s t => ?_, fun t n => ?_⟩
  · rw [number_eq_foldlM, number_eq_foldlM, marks_eq_of_le (Nat.le_add_right _ e) le_rfl]
  · have hunused (s : Numbering) : (List.range n).find? (!s.used.contains ·) = none ↔ ∀ i < n, i ∈ s.used := by
      simp
    have hmixed (names : List Text) : (names.foldl Numbering.note {}).IsMixed ↔
        [] ∈ names ∧ ∃ name ∈ names, name ≠ [] := by
      rw [Numbering.IsMixed, Numbering.automatic_foldl, Numbering.manual_foldl]
      simp
    have hused (names : List Text) (i : Nat) : i ∈ (names.foldl Numbering.note {}).used ↔ i ∈ denoted 0 names := by
      rw [Numbering.mem_used_foldl]
      simp
    have hvalid : validate t n = .ok () ↔ ∃ s, number n t.length {} t = .ok s ∧ ∀ i < n, i ∈ s.used := by
      rw [validate, bind_eq_ok]
      refine exists_congr fun s => and_congr_right fun _ => ?_
      rw [← hunused]
      cases (List.range n).find? (!s.used.contains ·) with
      | none => exact ⟨fun _ => rfl, fun _ => rfl⟩
      | some i => exact ⟨fun h => (by cases h), fun h => (by cases h)⟩
    rw [hvalid]
    constructor
    · rintro ⟨s, hs, hall⟩
      obtain ⟨names, hnamed, hfold⟩ := number_eq_ok_iff.mp hs
      obtain ⟨hnumerals, hstyle, hcount, rfl⟩ := (Numbering.foldlM_place_eq_ok (by simp [Numbering.IsMixed])).mp hfold
      refine ⟨names, hnamed, hnumerals, fun h => hstyle ((hmixed names).mpr h), fun i => ⟨hcount i, fun hi => ?_⟩⟩
      exact (hused names i).mp (hall i hi)
    · rintro ⟨names, hnamed, hnumerals, hstyle, hdenoted⟩
      have hfold : names.foldlM (fun (s : Numbering) name => s.place n name) {} = .ok (names.foldl Numbering.note {}) :=
        (Numbering.foldlM_place_eq_ok (by simp [Numbering.IsMixed])).mpr
          ⟨hnumerals, fun h => hstyle ((hmixed names).mp h), fun i hi => (hdenoted i).mp hi, rfl⟩
      exact ⟨_, number_eq_ok_iff.mpr ⟨names, hnamed, hfold⟩,
        fun i hi => (hused names i).mpr ((hdenoted i).mpr hi)⟩

end Template
end TypedErrors
