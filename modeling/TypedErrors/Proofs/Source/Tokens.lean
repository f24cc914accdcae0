import TypedErrors.Proofs.Source.Scanning

/-! # Reading the lexeme ahead

Where the terminal of a lexeme is accepted, and no accepted word has its text, the scanner goes past the gap before
the lexeme and reads it and no more (`next_of_spelled`), unless it is a string with the prefix. -/

namespace TypedErrors
namespace Scan

variable {accepts : List Terminal} {cs rest : List Char} {l : Lexeme} {ls : List Lexeme} {t u : Terminal} {s : String}
  {n : Nat}

/-! ### Fixed spellings -/

/-- A character that begins symbols only. -/
def isSymbolStart (c : Char) : Bool :=
  !c.isDigit && c != '/' && !isNameStart c && c != '"' && c != '\'' && !isSpace c

theorem symbol_start (h : t.symbol? = some s) : ∃ c cs, s.toList = c :: cs ∧ isSymbolStart c = true := by
  cases t <;> simp only [Terminal.symbol?, Option.some.injEq, reduceCtorEq] at h <;> subst h <;>
    exact ⟨_, _, rfl, by decide⟩

theorem nameText_of_word (h : t.word? = some s) : NameText s.toList := by
  cases t <;> simp only [Terminal.word?, Option.some.injEq, reduceCtorEq] at h <;> subst h <;>
    decide

theorem word_injective (ht : t.word? = some s) (hu : u.word? = some s) : t = u := by
  revert ht hu
  cases t <;> cases u <;> simp [Terminal.word?] <;> rintro rfl <;> decide

variable {spelling? : Terminal → Option String}

/-- The one terminal of a list whose spelling is at the front is read. -/
theorem fixed?_of_unique {ts : List Terminal} (hmem : t ∈ ts) (hs : spelling? t = some s) (hfront : s.toList <+: cs)
    (hunique : ∀ u ∈ ts, ∀ s', spelling? u = some s' → s'.toList <+: cs → u = t) :
    fixed? spelling? cs ts = some (t, s.length) := by
  induction ts with
  | nil => cases hmem
  | cons u ts ih =>
    have hrest := fun hmem => ih hmem fun v hv => hunique v (List.mem_cons_of_mem _ hv)
    by_cases hut : u = t
    · subst hut
      rw [fixed?, hs]
      exact if_pos (List.isPrefixOf_iff_prefix.mpr hfront)
    · have hmem : t ∈ ts := (List.mem_cons.mp hmem).resolve_left (Ne.symm hut)
      rw [fixed?]
      split
      · next s' hs' =>
        rw [if_neg, hrest hmem]
        exact fun hfront' => hut (hunique u (List.mem_cons_self ..) s' hs' (List.isPrefixOf_iff_prefix.mp hfront'))
      · exact hrest hmem

/-- Of the terminals that pass, the first one whose spelling is at the front is read. -/
theorem fixed?_filter {p : Terminal → Bool} {pre post : List Terminal} (ht : p t = true) (hs : spelling? t = some s)
    (hfront : s.toList <+: cs)
    (hpre : ∀ u ∈ pre, p u = true → ∀ s', spelling? u = some s' → ¬ s'.toList <+: cs) :
    fixed? spelling? cs ((pre ++ t :: post).filter p) = some (t, s.length) := by
  induction pre with
  | nil =>
    rw [List.nil_append, List.filter_cons_of_pos ht, fixed?, hs]
    exact if_pos (List.isPrefixOf_iff_prefix.mpr hfront)
  | cons u pre ih =>
    obtain ⟨hu, hpre⟩ := List.forall_mem_cons.mp hpre
    by_cases hpu : p u = true
    · rw [List.cons_append, List.filter_cons_of_pos hpu, fixed?]
      split
      · next s' hs' =>
        rw [if_neg, ih hpre]
        exact fun h => hu hpu s' hs' (List.isPrefixOf_iff_prefix.mp h)
      · exact ih hpre
    · rw [List.cons_append, List.filter_cons_of_neg hpu]
      exact ih hpre

theorem fixed?_none {ts : List Terminal}
    (h : ∀ u ∈ ts, ∀ s', spelling? u = some s' → ¬ s'.toList <+: cs) : fixed? spelling? cs ts = none := by
  induction ts with
  | nil => rfl
  | cons u ts ih =>
    obtain ⟨hu, h⟩ := List.forall_mem_cons.mp h
    rw [fixed?]
    split
    · next s' hs' =>
      rw [if_neg, ih h]
      exact fun hfront => hu s' hs' (List.isPrefixOf_iff_prefix.mp hfront)
    · exact ih h

/-- No word is at the front of a text that does not start like a name. -/
theorem words_none {c : Char} (h : isNameStart c = false) (ts : List Terminal) :
    fixed? Terminal.word? (c :: cs) ts = none := by
  refine fixed?_none fun u _ s' hs' hfront => ?_
  generalize hl : s'.toList = l at hfront
  have hname := nameText_of_word hs'
  rw [hl] at hname
  obtain ⟨hc, -⟩ := hname
  rw [(List.cons_prefix_cons.mp hfront).1, h] at hc
  cases hc

theorem mem_words_of_word (h : t.word? = some s) : t ∈ Terminal.words := by
  cases t <;> first | decide | cases h

/-- No word is the front of another one. -/
theorem words_apart : ∀ t ∈ Terminal.words, ∀ u ∈ Terminal.words,
    (u.word?.getD "").toList <+: (t.word?.getD "").toList → u = t := by
  decide

theorem isNamePart_of_word (h : t.word? = some s) : ∀ c ∈ s.toList, isNamePart c = true := by
  generalize hl : s.toList = l
  have hname := nameText_of_word h
  rw [hl] at hname
  obtain ⟨hc, hcs⟩ := hname
  exact List.forall_mem_cons.mpr ⟨isNamePart_of_isNameStart hc, hcs⟩

/-- A word at the front of a word that ends there is that word. -/
theorem word_unique (ht : t.word? = some s) (hrest : NotName rest) {s' : String} (hu : u.word? = some s')
    (hfront : s'.toList <+: s.toList ++ rest) : u = t := by
  have hprefix : s'.toList <+: s.toList := by
    rcases List.prefix_or_prefix_of_prefix hfront (List.prefix_append s.toList rest) with h | ⟨more, hmore⟩
    · exact h
    · cases more with
      | nil =>
        rw [List.append_nil] at hmore
        exact hmore ▸ List.prefix_rfl
      | cons d more =>
        -- the longer word goes on with a character of names
        rw [← hmore, List.prefix_append_right_inj] at hfront
        obtain ⟨end_, hend⟩ := hfront
        have hd : isNamePart d = false := hrest d (by rw [← hend]; rfl)
        have hpart := isNamePart_of_word hu d (by rw [← hmore]; simp)
        rw [hd] at hpart
        cases hpart
  refine words_apart t (mem_words_of_word ht) u (mem_words_of_word hu) ?_
  rw [ht, hu]
  exact hprefix

theorem mem_symbols_of_symbol (h : t.symbol? = some s) : t ∈ Terminal.symbols := by
  cases t <;> first | decide | cases h

/-- Of two symbols that begin alike, the longer one stands in front in the list. -/
theorem symbols_apart : ∀ t ∈ Terminal.symbols, (Terminal.symbols.dropWhile (· ≠ t)).head? = some t ∧
    ∀ u ∈ Terminal.symbols.takeWhile (· ≠ t),
      (u.symbol?.getD "").toList.head? = (t.symbol?.getD "").toList.head? →
        (t = .dot ∧ u = .ellipsis) ∨ (t = .colon ∧ u = .pathSep) := by
  decide

/-- An accepted symbol is read, unless it is the front of a longer one that is accepted and stands there. -/
theorem symbol_read (ht : t.symbol? = some s) (haccepts : t ∈ accepts) (hdot : t = .dot → .ellipsis ∉ accepts)
    (hcolon : t = .colon → rest.head? ≠ some ':') :
    fixed? Terminal.symbol? (s.toList ++ rest) (Terminal.symbols.filter accepts.contains) = some (t, s.length) := by
  obtain ⟨hhead, hapart⟩ := symbols_apart t (mem_symbols_of_symbol ht)
  obtain ⟨post, hpost⟩ := List.head?_eq_some_iff.mp hhead
  rw [← List.takeWhile_append_dropWhile (p := (· ≠ t)) (l := Terminal.symbols), hpost]
  refine fixed?_filter (List.contains_iff_mem.mpr haccepts) ht (List.prefix_append ..)
    fun u hu haccepted s' hs' hfront => ?_
  obtain ⟨c, cs, hcs, -⟩ := symbol_start hs'
  obtain ⟨d, ds, hds, -⟩ := symbol_start ht
  have hhead : (u.symbol?.getD "").toList.head? = (t.symbol?.getD "").toList.head? := by
    rw [hs', ht]
    show s'.toList.head? = s.toList.head?
    rw [hcs, hds] at hfront ⊢
    rw [(List.cons_prefix_cons.mp hfront).1]
    rfl
  rcases hapart u hu hhead with ⟨htdot, rfl⟩ | ⟨htcolon, rfl⟩
  · exact hdot htdot (List.contains_iff_mem.mp haccepted)
  · subst htcolon
    obtain rfl := Option.some.inj ht
    obtain rfl := Option.some.inj hs'
    obtain ⟨-, hfront⟩ := List.cons_prefix_cons.mp (show [':', ':'] <+: ':' :: rest from hfront)
    cases rest with
    | nil => simp at hfront
    | cons c rest => exact hcolon rfl (by rw [← (List.cons_prefix_cons.mp hfront).1]; rfl)

/-! ### The terminal ahead -/

/-- A class of text, if it is accepted. -/
def classRead (accepts : List Terminal) (t : Terminal) (n : Option Nat) : Option (Terminal × Nat) :=
  if accepts.contains t then n.map (t, ·) else none

@[simp] theorem classRead_none : classRead accepts t none = none := by
  unfold classRead
  split <;> rfl

theorem classRead_some (h : t ∈ accepts) : classRead accepts t (some n) = some (t, n) :=
  if_pos (List.contains_iff_mem.mpr h)

theorem terminal?_eq (accepts : List Terminal) (cs : List Char) : terminal? accepts cs =
    (classRead accepts .float (float? cs)
      <|> classRead accepts .doc (doc? cs)
      <|> (classRead accepts .name (name? cs)).map (fun p => (nameOrWord accepts (cs.take p.2), p.2))
      <|> classRead accepts .string (string? cs)
      <|> classRead accepts .char (char? cs)
      <|> classRead accepts .int (int? cs)
      <|> (if accepts.contains .name then none else fixed? Terminal.word? cs (accepts.filter Terminal.isWord))
      <|> fixed? Terminal.symbol? cs (Terminal.symbols.filter accepts.contains)) := rfl

/-- Where the terminals are accepted, a lexeme is read as what it is: a name is not taken for a word, nor points
for an ellipsis. -/
structure Reads (accepts : List Terminal) (l : Lexeme) : Prop where
  accepted : l.terminal ∈ accepts
  name : l.terminal = .name → ∀ w ∈ accepts, w.word? ≠ some l.text
  dot : l.terminal = .dot → .ellipsis ∉ accepts

theorem terminal?_symbol (ht : t.symbol? = some s) (haccepts : t ∈ accepts) (hdot : t = .dot → .ellipsis ∉ accepts)
    (hcolon : t = .colon → rest.head? ≠ some ':') :
    terminal? accepts (s.toList ++ rest) = some (t, s.length) := by
  have hsymbol := symbol_read ht haccepts hdot hcolon
  obtain ⟨c, cs, hcs, hstart⟩ := symbol_start ht
  simp only [isSymbolStart, Bool.and_eq_true, Bool.not_eq_true', bne_iff_ne] at hstart
  obtain ⟨⟨⟨⟨⟨hdigit, hslash⟩, hname⟩, hquote⟩, hchar⟩, -⟩ := hstart
  rw [hcs, List.cons_append] at hsymbol ⊢
  rw [terminal?_eq, float?_none hdigit, doc?_none hslash, name?_none hname, string?_none hquote, char?_none hchar,
    int?_none hdigit, words_none hname, hsymbol]
  simp

theorem isDigit_of_isNameStart {c : Char} (h : isNameStart c = true) : c.isDigit = false := by
  rw [isNameStart, Bool.or_eq_true, beq_iff_eq] at h
  have hletter (h : c.isAlpha = true) : c.isUpper = true ∨ c.isLower = true := Bool.or_eq_true_iff.mp h
  rcases h.imp_left hletter with (hupper | hlower) | rfl
  · have hc : 'A' ≤ c := (of_decide_eq_true hupper).1
    have hnot : ¬ c ≤ '9' := fun hd => absurd (Char.le_trans hc hd) (by decide)
    exact Bool.eq_false_iff.mpr fun hd => hnot (of_decide_eq_true (Bool.and_eq_true_iff.mp hd).2)
  · have hc : 'a' ≤ c := of_decide_eq_true (Bool.and_eq_true_iff.mp hlower).1
    have hnot : ¬ c ≤ '9' := fun hd => absurd (Char.le_trans hc hd) (by decide)
    exact Bool.eq_false_iff.mpr fun hd => hnot (of_decide_eq_true (Bool.and_eq_true_iff.mp hd).2)
  · rfl

theorem ne_of_isNameStart {c d : Char} (hd : isNameStart d = false) (h : isNameStart c = true) : c ≠ d := by
  rintro rfl
  rw [hd] at h
  cases h

/-- What begins like a name is read as an accepted name, or else as one of the words or symbols. -/
theorem terminal?_nameText (hcs : NameText cs) (hrest : NotName rest) : terminal? accepts (cs ++ rest) =
    if .name ∈ accepts then some (nameOrWord accepts cs, cs.length)
    else fixed? Terminal.word? (cs ++ rest) (accepts.filter Terminal.isWord) <|>
      fixed? Terminal.symbol? (cs ++ rest) (Terminal.symbols.filter accepts.contains) := by
  have hread := name?_append hcs hrest
  have htake : (cs ++ rest).take cs.length = cs := List.take_left ..
  obtain ⟨hc, -⟩ := hcs
  have hdigit := isDigit_of_isNameStart hc
  have hslash := ne_of_isNameStart (d := '/') (by decide) hc
  have hquote := ne_of_isNameStart (d := '"') (by decide) hc
  have hchar := ne_of_isNameStart (d := '\'') (by decide) hc
  rw [List.cons_append] at hread htake ⊢
  rw [terminal?_eq, float?_none hdigit, doc?_none hslash, hread, string?_none hquote, char?_none hchar,
    int?_none hdigit]
  by_cases haccepted : .name ∈ accepts
  · rw [classRead_some haccepted, Option.map_some, htake, if_pos haccepted]
    simp
  · simp [classRead, haccepted]

theorem terminal?_word (ht : t.word? = some s) (haccepts : t ∈ accepts) (hrest : NotName rest) :
    terminal? accepts (s.toList ++ rest) = some (t, s.length) := by
  rw [terminal?_nameText (nameText_of_word ht) hrest]
  split
  · have hfound : (accepts.find? fun u => u.word? = some (String.ofList s.toList)).isSome = true :=
      List.find?_isSome.mpr ⟨t, haccepts, by simp [ht]⟩
    obtain ⟨u, hu⟩ := Option.isSome_iff_exists.mp hfound
    have hword : u.word? = some s := by simpa using List.find?_some hu
    rw [nameOrWord, hu, Option.getD_some, word_injective hword ht, String.length_toList]
  · have hword : t.isWord = true := by rw [Terminal.isWord, ht]; rfl
    rw [fixed?_of_unique (List.mem_filter.mpr ⟨haccepts, hword⟩) ht (List.prefix_append ..)
      fun u _ s' hu hfront => word_unique ht hrest hu hfront]
    rfl

theorem terminal?_name (hs : NameText s.toList) (haccepts : .name ∈ accepts) (hwords : ∀ w ∈ accepts, w.word? ≠ some s)
    (hrest : NotName rest) : terminal? accepts (s.toList ++ rest) = some (.name, s.length) := by
  have hfind : accepts.find? (fun u => u.word? = some (String.ofList s.toList)) = none := by
    rw [List.find?_eq_none]
    intro w hw
    simpa [String.ofList_toList] using hwords w hw
  rw [terminal?_nameText hs hrest, if_pos haccepts, nameOrWord, hfind, String.length_toList]
  rfl

/-- What begins with a digit is read as an accepted float, or else as an accepted number. -/
theorem terminal?_digit {c : Char} (hc : c.isDigit = true) {o : Terminal × Nat}
    (h : (classRead accepts .float (float? (c :: cs)) <|> classRead accepts .int (int? (c :: cs))) = some o) :
    terminal? accepts (c :: cs) = some o := by
  have hname : isNameStart c = false := by
    by_contra hname
    rw [isDigit_of_isNameStart (by simpa using hname)] at hc
    cases hc
  have hne : ∀ d : Char, d.isDigit = false → c ≠ d := by
    rintro d hd rfl
    rw [hd] at hc
    cases hc
  rw [terminal?_eq, doc?_none (hne '/' (by decide)), name?_none hname, string?_none (hne '"' (by decide)),
    char?_none (hne '\'' (by decide))]
  cases hfloat : classRead accepts .float (float? (c :: cs)) with
  | some p =>
    rw [hfloat] at h
    exact h
  | none =>
    rw [hfloat] at h
    have hint : classRead accepts .int (int? (c :: cs)) = some o := h
    simp [hint]

theorem exists_digit_of_int (h : IntText cs) : ∃ c cs', cs = c :: cs' ∧ c.isDigit = true := by
  cases h with
  | hex => exact ⟨_, _, rfl, by decide⟩
  | octal => exact ⟨_, _, rfl, by decide⟩
  | binary => exact ⟨_, _, rfl, by decide⟩
  | decimal h =>
    obtain ⟨hc, -⟩ := h
    exact ⟨_, _, rfl, hc⟩

theorem exists_digit_of_float (h : FloatText cs) : ∃ c cs', cs = c :: cs' ∧ c.isDigit = true := by
  cases h with
  | fraction hwhole =>
    obtain ⟨hc, -⟩ := hwhole
    exact ⟨_, _, rfl, hc⟩
  | exponent hwhole =>
    obtain ⟨hc, -⟩ := hwhole
    exact ⟨_, _, rfl, hc⟩

theorem terminal?_int (h : IntText cs) (haccepts : .int ∈ accepts) (hrest : NotName rest)
    (hdot : ∀ d ds, rest = '.' :: d :: ds → d.isDigit = false) :
    terminal? accepts (cs ++ rest) = some (.int, cs.length) := by
  have hint := int?_append h hrest
  have hfloat := float?_none_of_int h hrest hdot
  obtain ⟨c, cs', rfl, hc⟩ := exists_digit_of_int h
  rw [List.cons_append] at hint hfloat ⊢
  refine terminal?_digit hc ?_
  rw [hfloat, hint, classRead_none, classRead_some haccepts]
  rfl

theorem terminal?_float (h : FloatText cs) (haccepts : .float ∈ accepts) (hrest : NotName rest) :
    terminal? accepts (cs ++ rest) = some (.float, cs.length) := by
  have hfloat := float?_append h hrest
  obtain ⟨c, cs', rfl, hc⟩ := exists_digit_of_float h
  rw [List.cons_append] at hfloat ⊢
  refine terminal?_digit hc ?_
  rw [hfloat, classRead_some haccepts]
  rfl

theorem terminal?_string (h : QuotedText cs) (haccepts : .string ∈ accepts) :
    terminal? accepts (cs ++ rest) = some (.string, cs.length) := by
  have hread : string? (cs ++ rest) = some cs.length := string?_append h
  obtain ⟨h⟩ := h
  rw [List.cons_append] at hread ⊢
  rw [terminal?_eq, float?_none (by decide), doc?_none (by decide), name?_none (by decide), hread,
    classRead_some haccepts]
  simp

theorem terminal?_char (h : CharText cs) (haccepts : .char ∈ accepts) :
    terminal? accepts (cs ++ rest) = some (.char, cs.length) := by
  have hread : char? (cs ++ rest) = some cs.length := char?_append h
  obtain ⟨cs', rfl⟩ : ∃ cs', cs = '\'' :: cs' := by cases h <;> exact ⟨_, rfl⟩
  rw [List.cons_append] at hread ⊢
  rw [terminal?_eq, float?_none (by decide), doc?_none (by decide), name?_none (by decide), string?_none (by decide),
    hread, classRead_some haccepts]
  simp

theorem terminal?_doc (h : DocText cs) (haccepts : .doc ∈ accepts) (hrest : ∀ d ∈ rest.head?, d = '\n') :
    terminal? accepts (cs ++ rest) = some (.doc, cs.length) := by
  have hread : doc? (cs ++ rest) = some cs.length := doc?_append h hrest
  obtain ⟨hbody⟩ := h
  rw [List.cons_append] at hread ⊢
  rw [terminal?_eq, float?_none (by decide), hread, classRead_some haccepts]
  simp

/-- A lexeme is read as what it is; the prefix of a string would be read as a name. -/
theorem terminal?_of_reads (hr : Reads accepts l) (hraw : ¬ l.IsRaw) (hl : l.terminal.Spells l.text.toList)
    (hends : l.terminal.Ends rest) : terminal? accepts (l.text.toList ++ rest) = some (l.terminal, l.text.length) := by
  obtain ⟨t, s⟩ := l
  have hlen : s.toList.length = s.length := String.length_toList
  have hfixed : ∀ {o : Option String}, o.map String.toList = some s.toList → o = some s := by
    intro o ho
    obtain ⟨s', hs', heq⟩ := Option.map_eq_some_iff.mp ho
    rw [hs', String.toList_inj.mp heq]
  cases t with
  | name => exact terminal?_name hl hr.accepted (hr.name rfl) hends
  | string =>
    have hquoted : QuotedText s.toList := by
      generalize hcs : s.toList = cs at hl
      cases hl with
      | quoted h => exact h
      | raw => exact absurd ⟨rfl, by rw [hcs]; rfl⟩ hraw
    exact hlen ▸ terminal?_string hquoted hr.accepted
  | char => exact hlen ▸ terminal?_char hl hr.accepted
  | int => exact hlen ▸ terminal?_int hl hr.accepted hends.1 hends.2
  | float => exact hlen ▸ terminal?_float hl hr.accepted hends
  | doc => exact hlen ▸ terminal?_doc hl hr.accepted hends
  | useWord | asWord | pubWord | inWord | structWord | enumWord | unionWord | crateWord | selfWord | superWord =>
    exact terminal?_word (hfixed hl) hr.accepted (hends rfl)
  | _ => exact terminal?_symbol (hfixed hl) hr.accepted hr.dot (fun h => by cases h <;> exact hends)

/-! ### The token ahead -/

theorem rest_advance (n : Nat) (c : Cursor) : (c.advance n).rest = c.rest.drop n := by
  induction n generalizing c with
  | zero => rfl
  | succ n ih =>
    obtain ⟨p, cs⟩ := c
    cases cs with
    | nil => rfl
    | cons x cs => exact ih _

/-- A lexeme other than a doc comment begins neither a space nor a comment. -/
theorem head_of_spells (ht : t ≠ .doc) (h : t.Spells cs) :
    ∃ c cs', cs = c :: cs' ∧ isSpace c = false ∧ c ≠ '/' := by
  have hdigit : ∀ {c : Char}, c.isDigit = true → isSpace c = false ∧ c ≠ '/' := by
    intro c hc
    have hne : ∀ d : Char, d.isDigit = false → c ≠ d := by
      rintro d hd rfl
      rw [hd] at hc
      cases hc
    refine ⟨?_, hne '/' (by decide)⟩
    simp [isSpace, hne ' ' (by decide), hne '\t' (by decide), hne '\x0c' (by decide), hne '\r' (by decide),
      hne '\n' (by decide)]
  have hname : ∀ {c : Char}, isNameStart c = true → isSpace c = false ∧ c ≠ '/' := by
    intro c hc
    have hne := fun d hd => ne_of_isNameStart (d := d) hd hc
    refine ⟨?_, hne '/' (by decide)⟩
    simp [isSpace, hne ' ' (by decide), hne '\t' (by decide), hne '\x0c' (by decide), hne '\r' (by decide),
      hne '\n' (by decide)]
  cases t with
  | doc => exact absurd rfl ht
  | name =>
    obtain ⟨hc, -⟩ := h
    exact ⟨_, _, rfl, hname hc⟩
  | string =>
    cases h with
    | quoted h =>
      obtain ⟨-⟩ := h
      exact ⟨_, _, rfl, by decide, by decide⟩
    | raw => exact ⟨_, _, rfl, by decide, by decide⟩
  | char => cases h <;> exact ⟨_, _, rfl, by decide, by decide⟩
  | int =>
    obtain ⟨c, cs', rfl, hc⟩ := exists_digit_of_int h
    exact ⟨c, cs', rfl, hdigit hc⟩
  | float =>
    obtain ⟨c, cs', rfl, hc⟩ := exists_digit_of_float h
    exact ⟨c, cs', rfl, hdigit hc⟩
  | _ =>
    obtain rfl := Option.some.inj h
    exact ⟨_, _, rfl, by decide, by decide⟩

theorem exists_cons_of_spells (h : t.Spells cs) : ∃ c cs', cs = c :: cs' := by
  by_cases ht : t = .doc
  · subst ht
    obtain ⟨-⟩ := h
    exact ⟨_, _, rfl⟩
  · obtain ⟨c, cs', hcs, -⟩ := head_of_spells ht h
    exact ⟨c, cs', hcs⟩

theorem trivia_lexeme {docs : Bool} (hdoc : t = .doc → docs = true) (h : t.Spells cs) (acc : Nat) :
    trivia docs 0 acc (cs ++ rest) = acc := by
  by_cases ht : t = .doc
  · subst ht
    obtain ⟨-⟩ := h
    rw [hdoc rfl]
    rfl
  · obtain ⟨c, cs', rfl, hspace, hslash⟩ := head_of_spells ht h
    refine trivia_of_head ?_ acc
    rintro d hd
    obtain rfl := Option.some.inj hd
    exact ⟨hspace, hslash⟩

theorem next_of_spelled {c : Cursor} (h : Spelled (l :: ls) c.rest) (hr : Reads accepts l) (hraw : ¬ l.IsRaw) :
    ∃ tok after, next accepts c = .token tok after ∧ tok.terminal = l.terminal ∧ tok.text = l.text ∧
      Spelled ls after.rest := by
  generalize hcs : c.rest = cs at h
  cases h with
  | @cons gap rest _ _ hgap hl hends h =>
    have hdocs : l.terminal = .doc → accepts.contains .doc = true := fun hdoc =>
      List.contains_iff_mem.mpr (hdoc ▸ hr.accepted)
    have htrivia : trivia (accepts.contains .doc) 0 0 c.rest = gap.length := by
      rw [hcs, trivia_gap hgap, trivia_lexeme hdocs hl, Nat.zero_add]
    have hrest : (c.advance gap.length).rest = l.text.toList ++ rest := by
      rw [rest_advance, hcs, List.drop_left]
    have hread := terminal?_of_reads hr hraw hl hends
    have hlen : l.text.toList.length = l.text.length := String.length_toList
    obtain ⟨x, xs, hx⟩ := exists_cons_of_spells hl
    refine ⟨(take l.terminal l.text.length (c.advance gap.length)).1,
      (take l.terminal l.text.length (c.advance gap.length)).2, ?_, rfl, ?_, ?_⟩
    · rw [next]
      simp only [htrivia, hrest, hread]
      rw [hx]
      rfl
    · show String.ofList ((c.advance gap.length).rest.take l.text.length) = l.text
      rw [hrest, ← hlen, List.take_left, String.ofList_toList]
    · show Spelled ls ((c.advance gap.length).advance l.text.length).rest
      rw [rest_advance, hrest, ← hlen, List.drop_left]
      exact h

theorem trivia_of_spelled {docs : Bool} (h : Spelled [] cs) : trivia docs 0 0 cs = cs.length := by
  cases h with
  | nil hgap =>
    have h : trivia docs 0 0 (cs ++ []) = _ := trivia_gap hgap 0
    rw [List.append_nil] at h
    rw [h, Nat.zero_add]
    rfl
  | @comment gap body hgap hbody hdoc =>
    have h : trivia docs 0 gap.length ('/' :: '/' :: (body ++ [])) = _ := trivia_line hbody hdoc (by simp) gap.length
    rw [List.append_nil] at h
    rw [trivia_gap hgap, Nat.zero_add, h, List.length_append]
    rfl

theorem next_of_gap {c : Cursor} (h : Spelled [] c.rest) : next accepts c = .endOfInput := by
  have hrest : (c.advance c.rest.length).rest = [] := by
    rw [rest_advance, List.drop_length]
  rw [next]
  simp only [trivia_of_spelled h, hrest]

end Scan

/-- There are no more lexemes than characters. -/
theorem Spelled.length_le {cs : List Char} {ls : List Lexeme} (h : Spelled ls cs) : ls.length ≤ cs.length := by
  induction h with
  | nil | comment => exact Nat.zero_le _
  | cons _ hl _ _ ih =>
    obtain ⟨c, cs', hcs⟩ := Scan.exists_cons_of_spells hl
    rw [hcs]
    simp only [List.length_cons, List.length_append]
    omega

end TypedErrors
