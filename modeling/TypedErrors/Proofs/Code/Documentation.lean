import TypedErrors.Code.Render
import TypedErrors.Proofs.Text
import TypedErrors.Proofs.Text.Quoted

/-! # Documentation is read back

The escaped text stands between triple quotes, its further lines indented. The reader ends the literal at the first
three quotes in a row, so what matters is how many bare quotes come before a place and after it (`Spells`). A run of
three quotes at the end of a text is escaped twice: then the literal is another one (`readTriple_render`). -/

namespace TypedErrors
namespace Code
namespace Doc

variable {text text' code code' cs : List Char} {k j i : Nat}

/-! ### Literals in triple quotes -/

/-- The text up to the first three quotes in a row, and what follows them. A backslash takes the next character
along. -/
def untilTriple : List Char → Option (List Char × List Char)
  | '"' :: '"' :: '"' :: rest => some ([], rest)
  | '\\' :: c :: cs => (untilTriple cs).map fun (body, rest) => ('\\' :: c :: body, rest)
  | c :: cs => (untilTriple cs).map fun (body, rest) => (c :: body, rest)
  | [] => none

/-- The value of a literal in triple quotes, and what follows the literal. -/
def readTriple (cs : List Char) : Option (Text × List Char) :=
  if '\x00' ∈ cs then none
  else match unifyLineEnds cs with
    | '"' :: '"' :: '"' :: cs => do
      let (body, rest) ← untilTriple cs
      let t ← (Escape.read 0 0 (Escape.asciiForm body)).toOption
      return (t, rest)
    | _ => none

/-- Spaces before a line that is not empty. -/
def indented (level : Nat) (line : List Char) : List Char :=
  if line.isEmpty then [] else List.replicate (4 * level) ' ' ++ line

/-- A text of one line as it is. Of a longer text the lines after the first are indented, and so is a last line that
the closing quotes stand on. -/
def laidOut (level : Nat) (text : List Char) : List Char :=
  match text.splitOn '\n' with
  | first :: second :: more =>
    ['\n'].intercalate (first :: (second :: more).map (indented level) ++ [List.replicate (4 * level) ' '])
  | _ => text

/-- The length of the run of quotes at the end. -/
def endQuotes (text : List Char) : Nat := (text.reverse.takeWhile (· = '"')).length

/-- The run of quotes at the end is parted into threes, so that the last quote is escaped with them and once more for
being the last. -/
def Overescaped (text : List Char) : Prop := endQuotes text ≠ 0 ∧ 3 ∣ endQuotes text

instance : Decidable (Overescaped text) := inferInstanceAs (Decidable (_ ∧ _))

/-! ### Layout -/

variable {c : Char} {l : List Char} {ls : List (List Char)}

theorem splitOn_newline (cs : List Char) : ('\n' :: cs).splitOn '\n' = [] :: cs.splitOn '\n' := by
  rw [List.splitOn_cons_eq_if_modifyHead, if_pos (beq_self_eq_true _)]

theorem splitOn_cons_of_ne (hc : c ≠ '\n') (h : cs.splitOn '\n' = l :: ls) :
    (c :: cs).splitOn '\n' = (c :: l) :: ls := by
  rw [List.splitOn_cons_eq_if_modifyHead, if_neg (by simpa using hc), h, List.modifyHead_cons]

/-- The lines of a text, one character at a time. -/
theorem splitOn_induction {P : List Char → List Char → List (List Char) → Prop} (nil : P [] [] [])
    (newline : ∀ cs l ls, P cs l ls → P ('\n' :: cs) [] (l :: ls))
    (char : ∀ c cs l ls, c ≠ '\n' → P cs l ls → P (c :: cs) (c :: l) ls) (cs : List Char) :
    ∃ l ls, cs.splitOn '\n' = l :: ls ∧ P cs l ls := by
  induction cs with
  | nil => exact ⟨[], [], List.splitOn_nil _, nil⟩
  | cons c cs ih =>
    obtain ⟨l, ls, h, hp⟩ := ih
    by_cases hc : c = '\n'
    · subst hc
      exact ⟨[], l :: ls, h ▸ splitOn_newline cs, newline cs l ls hp⟩
    · exact ⟨c :: l, ls, splitOn_cons_of_ne hc h, char c cs l ls hc hp⟩

theorem splitLines_eq (cs : List Char) : splitLines [] cs = cs.splitOn '\n' := by
  obtain ⟨l, ls, h, hlines⟩ := splitOn_induction
    (P := fun cs l ls => ∀ acc, splitLines acc cs = (acc.reverse ++ l) :: ls)
    (fun acc => by rw [splitLines, List.append_nil])
    (fun cs l ls ih acc => by rw [splitLines, ih, List.append_nil]; rfl)
    (fun c cs l ls hc ih acc => by
      rw [splitLines, ih, List.reverse_cons, List.append_assoc]
      · rfl
      · exact hc) cs
  rw [h, hlines]
  rfl

/-- Puts spaces in front of the lines that are not empty; `atStart` tells whether a further line starts here. -/
def indent (level : Nat) (atStart : Bool) : List Char → List Char
  | [] => []
  | c :: cs =>
    if c = '\n' then c :: indent level true cs
    else (if atStart then List.replicate (4 * level) ' ' else []) ++ c :: indent level false cs

theorem intercalate_cons (sep l : List Char) (ls : List (List Char)) :
    sep.intercalate (l :: ls) = l ++ ls.flatMap (sep ++ ·) := by
  induction ls generalizing l with
  | nil => rw [List.intercalate_singleton, List.flatMap_nil, List.append_nil]
  | cons l' ls ih => rw [List.intercalate_cons_cons, ih, List.flatMap_cons, List.append_assoc, List.append_assoc]

theorem indent_eq (level : Nat) (cs : List Char) : ∃ l ls, cs.splitOn '\n' = l :: ls ∧ ('\n' ∈ cs ↔ ls ≠ []) ∧
    indent level false cs = ['\n'].intercalate (l :: ls.map (indented level)) := by
  obtain ⟨l, ls, h, hmem, hindent⟩ := splitOn_induction
    (P := fun cs l ls => ('\n' ∈ cs ↔ ls ≠ []) ∧ ∀ atStart, indent level atStart cs =
      ['\n'].intercalate ((if atStart then indented level l else l) :: ls.map (indented level)))
    ⟨by simp, fun atStart => by cases atStart <;> rfl⟩
    (fun cs l ls ih => ⟨by simp, fun atStart => by
      have hempty : (if atStart then indented level [] else []) = [] := by cases atStart <;> rfl
      rw [indent, if_pos rfl, ih.2 true, hempty]
      rfl⟩)
    (fun c cs l ls hc ih => ⟨by simpa [hc.symm] using ih.1, fun atStart => by
      have hline : (if atStart then indented level (c :: l) else c :: l) =
          (if atStart then List.replicate (4 * level) ' ' else []) ++ c :: l := by cases atStart <;> rfl
      rw [indent, if_neg hc, ih.2 false, hline, intercalate_cons, intercalate_cons, List.append_assoc]
      rfl⟩) cs
  exact ⟨l, ls, h, hmem, hindent false⟩

theorem laidOut_eq (level : Nat) (text : List Char) : laidOut level text =
    if '\n' ∈ text then indent level false text ++ '\n' :: List.replicate (4 * level) ' ' else text := by
  obtain ⟨l, ls, h, hmem, hindent⟩ := indent_eq level text
  rw [laidOut, h, hindent]
  cases ls with
  | nil => rw [if_neg (by simp [hmem])]
  | cons l' ls =>
    rw [if_pos (by simp [hmem])]
    show ['\n'].intercalate (l :: ((l' :: ls).map (indented level) ++ [List.replicate (4 * level) ' '])) = _
    rw [intercalate_cons, intercalate_cons, List.flatMap_append, List.flatMap_singleton, List.append_assoc]
    rfl

/-- The lines of a documentation literal are the spaces of the level and the escaped text, laid out between quotes. -/
theorem joinWith_render (level : Nat) (text : String) :
    (joinWith "\n" (render level text)).toList =
      (pad level).toList ++ (['"', '"', '"'] ++ laidOut level (escape text.toList) ++ ['"', '"', '"']) := by
  have hquotes : "\"\"\"".toList = ['"', '"', '"'] := rfl
  have hnewline : "\n".toList = ['\n'] := rfl
  have hpad : (pad level).toList = List.replicate (4 * level) ' ' := by rw [pad, String.toList_ofList]
  have hindented (l : List Char) :
      (if l.isEmpty then "" else pad level ++ String.ofList l).toList = indented level l := by
    rw [indented]
    split_ifs
    · rfl
    · rw [String.toList_append, hpad, String.toList_ofList]
  obtain ⟨l, ls, h, -⟩ := indent_eq level (escape text.toList)
  rw [joinWith_eq_intercalate, String.toList_intercalate, render, splitLines_eq, laidOut, h, hnewline]
  cases ls with
  | nil =>
    have hl : escape text.toList = l := by
      have hsplit : ['\n'].intercalate ((escape text.toList).splitOn '\n') = escape text.toList :=
        List.intercalate_splitOn '\n'
      rw [← hsplit, h, List.intercalate_singleton]
    simp only [List.map_cons, List.map_nil, List.intercalate_singleton, String.toList_append, hquotes,
      String.toList_ofList, hl, List.append_assoc]
  | cons l' ls =>
    have hmore : ((l' :: ls).map fun l => if l.isEmpty then "" else pad level ++ String.ofList l).map String.toList =
        (l' :: ls).map (indented level) := by
      rw [List.map_map]
      exact List.map_congr_left fun l _ => hindented l
    show ['\n'].intercalate (List.map String.toList ((pad level ++ "\"\"\"" ++ String.ofList l) ::
      List.map _ (l' :: ls) ++ [pad level ++ "\"\"\""])) =
        _ ++ (_ ++ ['\n'].intercalate (l :: ((l' :: ls).map (indented level) ++ [_])) ++ _)
    rw [List.map_append, List.map_cons, hmore, List.cons_append, intercalate_cons, intercalate_cons, List.map_singleton,
      List.flatMap_append, List.flatMap_append, List.flatMap_singleton, List.flatMap_singleton]
    simp only [String.toList_append, hquotes, String.toList_ofList, hpad, List.append_assoc]

/-! ### What is written for a text -/

/-- The code spells the text, between `k` bare quotes before it and `j` at its end. There are never three of them in a
row, and no line feed follows a backslash. -/
inductive Spells : Nat → List Char → List Char → Nat → Prop
  | nil {k : Nat} : Spells k [] [] k
  | backslash {k j : Nat} {text code : List Char} (h : Spells 0 text code j) :
      Spells k ('\\' :: text) ('\\' :: '\\' :: code) j
  | escaped {k j : Nat} {text code : List Char} (h : Spells 0 text code j) :
      Spells k ('"' :: text) ('\\' :: '"' :: code) j
  | bare {k j : Nat} {text code : List Char} (hk : k < 2) (h : Spells (k + 1) text code j) :
      Spells k ('"' :: text) ('"' :: code) j
  | plain {k j : Nat} {c : Char} {text code : List Char} (hslash : c ≠ '\\') (hquote : c ≠ '"')
      (h : Spells 0 text code j) : Spells k (c :: text) (c :: code) j

namespace Spells

theorem append (h : Spells k text code j) (h' : Spells j text' code' i) :
    Spells k (text ++ text') (code ++ code') i := by
  induction h with
  | nil => exact h'
  | backslash _ ih => exact .backslash (ih h')
  | escaped _ ih => exact .escaped (ih h')
  | bare hk _ ih => exact .bare hk (ih h')
  | plain hslash hquote _ ih => exact .plain hslash hquote (ih h')

theorem spaces (n : Nat) (h : Spells 0 text code j) :
    Spells 0 (List.replicate n ' ' ++ text) (List.replicate n ' ' ++ code) j := by
  induction n with
  | zero => exact h
  | succ n ih => exact .plain (by decide) (by decide) ih

/-- Indentation goes before the first character of a line, whatever is written for it. -/
theorem started {atStart : Bool} (hstart : atStart = true → k = 0) (n : Nat) (h : Spells k text code j) :
    Spells k ((if atStart then List.replicate n ' ' else []) ++ text)
      ((if atStart then List.replicate n ' ' else []) ++ code) j := by
  cases atStart with
  | false => exact h
  | true =>
    obtain rfl := hstart rfl
    exact h.spaces n

theorem indent (level : Nat) (h : Spells k text code j) (atStart : Bool) (hstart : atStart = true → k = 0) :
    Spells k (indent level atStart text) (indent level atStart code) j := by
  induction h generalizing atStart with
  | nil => exact .nil
  | backslash h ih => exact started hstart _ (.backslash (ih false nofun))
  | escaped h ih => exact started hstart _ (.escaped (ih false nofun))
  | bare hk h ih => exact started hstart _ (.bare hk (ih false nofun))
  | @plain k j c text code hslash hquote h ih =>
    rw [Doc.indent, Doc.indent]
    by_cases hc : c = '\n'
    · rw [if_pos hc, if_pos hc]
      exact .plain hslash hquote (ih true fun _ => rfl)
    · rw [if_neg hc, if_neg hc]
      exact started hstart _ (.plain hslash hquote (ih false nofun))

theorem mem_iff (h : Spells k text code j) (hslash : c ≠ '\\') (hquote : c ≠ '"') : c ∈ text ↔ c ∈ code := by
  induction h with
  | nil => rfl
  | backslash _ ih | escaped _ ih | bare _ _ ih | plain _ _ _ ih => simp [ih, hslash, hquote]

theorem laidOut (level : Nat) (h : Spells 0 text code j) (hj : j = 0 ∨ '\n' ∈ text) :
    Spells 0 (laidOut level text) (laidOut level code) 0 := by
  have hmem : '\n' ∈ text ↔ '\n' ∈ code := h.mem_iff (by decide) (by decide)
  rw [laidOut_eq, laidOut_eq]
  by_cases hnewline : '\n' ∈ text
  · rw [if_pos hnewline, if_pos (hmem.mp hnewline)]
    have hspaces := (Spells.nil (k := 0)).spaces (4 * level)
    rw [List.append_nil] at hspaces
    exact (h.indent level false nofun).append (.plain (by decide) (by decide) hspaces)
  · obtain rfl := hj.resolve_right hnewline
    rwa [if_neg hnewline, if_neg fun hcode => hnewline (hmem.mpr hcode)]

/-! ### Reading it back -/

theorem untilTriple_plain (hk : k < 3) (hslash : c ≠ '\\') (hquote : c ≠ '"') (cs : List Char) :
    untilTriple (List.replicate k '"' ++ c :: cs) =
      (untilTriple cs).map fun (body, rest) => (List.replicate k '"' ++ c :: body, rest) := by
  obtain rfl | rfl | rfl : k = 0 ∨ k = 1 ∨ k = 2 := by omega
  all_goals simp [untilTriple, hslash, hquote, Function.comp_def]

theorem untilTriple_escape (hk : k < 3) (c : Char) (cs : List Char) :
    untilTriple (List.replicate k '"' ++ '\\' :: c :: cs) =
      (untilTriple cs).map fun (body, rest) => (List.replicate k '"' ++ '\\' :: c :: body, rest) := by
  obtain rfl | rfl | rfl : k = 0 ∨ k = 1 ∨ k = 2 := by omega
  all_goals simp [untilTriple, Function.comp_def]

/-- The literal ends at the three quotes behind the code, and not before. -/
theorem untilTriple_eq (h : Spells k text code 0) (hk : k < 3) (rest : List Char) :
    untilTriple (List.replicate k '"' ++ (code ++ '"' :: '"' :: '"' :: rest)) =
      some (List.replicate k '"' ++ code, rest) := by
  generalize hj : 0 = j at h
  induction h with
  | nil =>
    subst hj
    rfl
  | backslash h ih | escaped h ih =>
    have hcode := ih (by decide) hj
    rw [List.replicate_zero, List.nil_append, List.nil_append] at hcode
    rw [List.cons_append, List.cons_append, untilTriple_escape hk, hcode]
    rfl
  | @bare k j text code hk h ih =>
    have hshift (cs : List Char) : List.replicate k '"' ++ '"' :: cs = List.replicate (k + 1) '"' ++ cs := by
      rw [List.replicate_succ', List.append_assoc, List.singleton_append]
    rw [List.cons_append, hshift, hshift, ih (by omega) hj]
  | plain hslash hquote h ih =>
    have hcode := ih (by decide) hj
    rw [List.replicate_zero, List.nil_append, List.nil_append] at hcode
    rw [List.cons_append, untilTriple_plain hk hslash hquote, hcode]
    rfl

theorem read_piece {piece : List Char} (hpiece : Quoted.ReadBack (.char c) piece)
    (h : ∀ position, Escape.read position 0 (Escape.asciiForm code) = .ok (Text.ofChars text)) (position : Nat) :
    Escape.read position 0 (Escape.asciiForm (piece ++ code)) = .ok (Text.ofChars (c :: text)) := by
  obtain ⟨form, hform, hread⟩ := hpiece
  rw [hform, hread, h]
  rfl

theorem read (h : Spells k text code j) (position : Nat) :
    Escape.read position 0 (Escape.asciiForm code) = .ok (Text.ofChars text) := by
  induction h generalizing position with
  | nil => rfl
  | backslash _ ih => exact read_piece (.simple (by decide)) ih position
  | escaped _ ih => exact read_piece (.simple (by decide)) ih position
  | bare _ _ ih => exact read_piece (.plain (by decide)) ih position
  | plain hslash _ _ ih => exact read_piece (.plain hslash) ih position

theorem readTriple (h : Spells 0 text code 0) (rest : List Char) (hnull : '\x00' ∉ text ++ rest)
    (hreturn : '\r' ∉ text ++ rest) :
    readTriple (['"', '"', '"'] ++ code ++ ['"', '"', '"'] ++ rest) = some (Text.ofChars text, rest) := by
  have hliteral {c : Char} (hslash : c ≠ '\\') (hquote : c ≠ '"') (hc : c ∉ text ++ rest) :
      c ∉ ['"', '"', '"'] ++ code ++ ['"', '"', '"'] ++ rest := by
    simpa [← h.mem_iff hslash hquote, hquote] using hc
  have huntil := h.untilTriple_eq (by decide) rest
  rw [List.replicate_zero, List.nil_append, List.nil_append] at huntil
  rw [Doc.readTriple, if_neg (hliteral (by decide) (by decide) hnull),
    Quoted.unifyLineEnds_of_not_mem (hliteral (by decide) (by decide) hreturn), List.append_assoc, List.append_assoc]
  show (untilTriple (code ++ '"' :: '"' :: '"' :: rest) >>= _) = _
  rw [huntil]
  show ((Escape.read 0 0 (Escape.asciiForm code)).toOption >>= _) = _
  rw [h.read]
  rfl

end Spells

/-! ### The escaped text -/

/-- A text with backslashes and runs of three quotes escaped. -/
def triples (cs : List Char) : List Char := escapeTriples (escapeBackslashes cs)

theorem triples_three (cs : List Char) :
    triples ('"' :: '"' :: '"' :: cs) = '\\' :: '"' :: '\\' :: '"' :: '\\' :: '"' :: triples cs := by
  simp [triples, escapeBackslashes, escapeTriples]

/-- What is written for a character other than a quote. -/
def slashed (c : Char) : List Char := if c = '\\' then ['\\', '\\'] else [c]

/-- What is written for a number of quotes divisible by three. -/
def escapedQuotes (q : Nat) : List Char := (List.replicate q ['\\', '"', '\\', '"', '\\', '"']).flatten

theorem triples_few {s : Nat} (hs : s < 3) (hc : c ≠ '"') (cs : List Char) :
    triples (List.replicate s '"' ++ c :: cs) = List.replicate s '"' ++ (slashed c ++ triples cs) := by
  obtain rfl | rfl | rfl : s = 0 ∨ s = 1 ∨ s = 2 := by omega
  all_goals by_cases hslash : c = '\\' <;> simp [triples, escapeBackslashes, escapeTriples, slashed, hslash, hc]

theorem triples_end {s : Nat} (hs : s < 3) : triples (List.replicate s '"') = List.replicate s '"' := by
  obtain rfl | rfl | rfl : s = 0 ∨ s = 1 ∨ s = 2 := by omega
  all_goals rfl

theorem triples_quotes (q : Nat) (cs : List Char) :
    triples (List.replicate (3 * q) '"' ++ cs) = escapedQuotes q ++ triples cs := by
  induction q with
  | zero => rfl
  | succ q ih =>
    show triples ('"' :: '"' :: '"' :: (List.replicate (3 * q) '"' ++ cs)) = _
    rw [triples_three, ih]
    rfl

theorem spells_quotes (q : Nat) : Spells 0 (List.replicate (3 * q) '"') (escapedQuotes q) 0 := by
  induction q with
  | zero => exact .nil
  | succ q ih => exact .escaped (.escaped (.escaped ih))

theorem spells_bare {s : Nat} (hs : s < 3) : Spells 0 (List.replicate s '"') (List.replicate s '"') s := by
  obtain rfl | rfl | rfl : s = 0 ∨ s = 1 ∨ s = 2 := by omega
  · exact .nil
  · exact .bare (by decide) .nil
  · exact .bare (by decide) (.bare (by decide) .nil)

theorem spells_slashed (hc : c ≠ '"') (h : Spells 0 text code j) : Spells k (c :: text) (slashed c ++ code) j := by
  by_cases hslash : c = '\\'
  · subst hslash
    exact .backslash h
  · rw [slashed, if_neg hslash]
    exact .plain hslash hc h

/-- After a run of quotes a text is over, or goes on with another character. -/
theorem runs_induction {P : List Char → Prop} (quotes : ∀ r, P (List.replicate r '"'))
    (run : ∀ r c cs, c ≠ '"' → P cs → P (List.replicate r '"' ++ c :: cs)) (text : List Char) : P text := by
  have h : ∀ r, P (List.replicate r '"' ++ text) := by
    induction text with
    | nil => simpa using quotes
    | cons c cs ih =>
      intro r
      by_cases hc : c = '"'
      · subst hc
        have hrun := ih (r + 1)
        rwa [List.replicate_succ', List.append_assoc, List.singleton_append] at hrun
      · exact run r c cs hc (ih 0)
  exact h 0

/-- A text with its code, both parted in front of the run of quotes at the end of the text. -/
structure Parted (text front code : List Char) (q s : Nat) : Prop where
  few : s < 3
  text_eq : text = front ++ List.replicate (3 * q + s) '"'
  endQuotes_eq : endQuotes text = 3 * q + s
  triples_eq : triples text = code ++ (escapedQuotes q ++ List.replicate s '"')
  spells : Spells 0 front code 0
  last_ne : code.getLast? ≠ some '"'

theorem endQuotes_append (hc : c ≠ '"') (front cs : List Char) : endQuotes (front ++ c :: cs) = endQuotes cs := by
  rw [endQuotes, endQuotes, List.reverse_append, List.reverse_cons, List.append_assoc, List.singleton_append,
    List.takeWhile_append, List.takeWhile_cons_of_neg (by simpa using hc), List.append_nil]
  split_ifs with hlength
  · exact hlength.symm
  · rfl

theorem exists_parted (text : List Char) : ∃ front code q s, Parted text front code q s := by
  induction text using runs_induction with
  | quotes r =>
    refine ⟨[], [], r / 3, r % 3, Nat.mod_lt r (by decide), ?_, ?_, ?_, .nil, by simp⟩
    · rw [Nat.div_add_mod]
      rfl
    · rw [Nat.div_add_mod, endQuotes, List.reverse_replicate, List.takeWhile_replicate]
      simp
    · conv_lhs => rw [← Nat.div_add_mod r 3, List.replicate_add, triples_quotes, triples_end (Nat.mod_lt r (by decide))]
      rfl
  | run r c cs hc ih =>
    obtain ⟨front, code, q, s, h⟩ := ih
    have hr : List.replicate r '"' = List.replicate (3 * (r / 3)) '"' ++ List.replicate (r % 3) '"' := by
      rw [← List.replicate_add, Nat.div_add_mod]
    refine ⟨List.replicate r '"' ++ c :: front,
      escapedQuotes (r / 3) ++ (List.replicate (r % 3) '"' ++ (slashed c ++ code)), q, s, h.few, ?_, ?_, ?_, ?_, ?_⟩
    · rw [h.text_eq, List.append_assoc, List.cons_append]
    · rw [endQuotes_append hc, h.endQuotes_eq]
    · rw [hr, List.append_assoc, triples_quotes, triples_few (Nat.mod_lt r (by decide)) hc, h.triples_eq]
      simp only [List.append_assoc]
    · rw [hr, List.append_assoc]
      exact (spells_quotes _).append ((spells_bare (Nat.mod_lt r (by decide))).append (spells_slashed hc h.spells))
    · rw [List.getLast?_append, List.getLast?_append, List.getLast?_append]
      cases hlast : code.getLast? with
      | none =>
        have hslashed : (slashed c).getLast? = some c := by
          by_cases hslash : c = '\\' <;> simp [slashed, hslash]
        simpa [hslashed] using hc
      | some d => simpa [hlast] using h.last_ne

theorem escapeLast_concat (cs : List Char) : escapeLast (cs ++ ['"']) = cs ++ ['\\', '"'] := by
  induction cs with
  | nil => rfl
  | cons c cs ih =>
    rw [List.cons_append, escapeLast, ih]
    · rfl
    · simp

theorem escapeLast_of_ne (h : cs.getLast? ≠ some '"') : escapeLast cs = cs := by
  fun_induction escapeLast cs with
  | case1 => rfl
  | case2 => exact absurd rfl h
  | case3 c cs hc ih =>
    rw [ih]
    intro hlast
    exact h (by rw [List.getLast?_cons, hlast, Option.getD_some])

/-- A last quote that is bare gets a backslash. -/
theorem spells_escape (h : ¬ Overescaped text) : Spells 0 text (escape text) 0 := by
  obtain ⟨front, code, q, s, hp⟩ := exists_parted text
  have hfew := hp.few
  rw [Overescaped, hp.endQuotes_eq] at h
  rw [escape, ← triples, hp.triples_eq, hp.text_eq]
  cases s with
  | zero =>
    obtain rfl : q = 0 := by omega
    show Spells 0 (front ++ []) (escapeLast (code ++ [])) 0
    rw [List.append_nil, List.append_nil, escapeLast_of_ne hp.last_ne]
    exact hp.spells
  | succ s =>
    have hbare : Spells 0 (List.replicate s '"' ++ ['"']) (List.replicate s '"' ++ ['\\', '"']) 0 :=
      (spells_bare (by omega)).append (.escaped .nil)
    rw [List.replicate_succ', ← List.append_assoc, ← List.append_assoc, escapeLast_concat, ← Nat.add_assoc,
      List.replicate_succ', List.replicate_add, List.append_assoc, List.append_assoc, List.append_assoc]
    exact hp.spells.append ((spells_quotes q).append hbare)

/-- A last quote that is escaped gets a backslash of its own, and is bare. -/
theorem Overescaped.escape_eq (h : Overescaped text) : ∃ front code, text = front ++ ['"'] ∧
    escape text = code ++ ['"'] ∧ Spells 0 (front ++ ['\\']) code 0 := by
  obtain ⟨front, code, q, s, hp⟩ := exists_parted text
  have hfew := hp.few
  rw [Overescaped, hp.endQuotes_eq] at h
  obtain rfl : s = 0 := by omega
  obtain ⟨q, rfl⟩ := Nat.exists_eq_succ_of_ne_zero (n := q) (by omega)
  have hquotes : escapedQuotes (q + 1) = escapedQuotes q ++ ['\\', '"', '\\', '"', '\\'] ++ ['"'] := by
    rw [escapedQuotes, List.replicate_succ', List.flatten_append]
    simp [escapedQuotes]
  refine ⟨front ++ (List.replicate (3 * q) '"' ++ ['"', '"']),
    code ++ (escapedQuotes q ++ ['\\', '"', '\\', '"', '\\', '\\']), ?_, ?_, ?_⟩
  · rw [hp.text_eq, Nat.add_zero, Nat.mul_succ, List.append_assoc, List.append_assoc, List.replicate_add]
    rfl
  · rw [escape, ← triples, hp.triples_eq, List.replicate_zero, List.append_nil, hquotes, ← List.append_assoc,
      escapeLast_concat]
    simp
  · rw [List.append_assoc, List.append_assoc]
    exact hp.spells.append ((spells_quotes q).append (.escaped (.escaped (.backslash .nil))))

/-! ### The literal -/

theorem count_indent (level : Nat) (hspace : c ≠ ' ') (atStart : Bool) (cs : List Char) :
    (indent level atStart cs).count c = cs.count c := by
  have hspaces : (if atStart then List.replicate (4 * level) ' ' else []).count c = 0 := by
    cases atStart <;> simp [List.count_replicate, hspace.symm]
  induction cs generalizing atStart with
  | nil => rfl
  | cons d cs ih =>
    rw [indent]
    by_cases hd : d = '\n'
    · rw [if_pos hd, List.count_cons, List.count_cons, ih true (by simp [List.count_replicate, hspace.symm])]
    · rw [if_neg hd, List.count_append, hspaces, Nat.zero_add, List.count_cons, List.count_cons, ih false rfl]

theorem count_laidOut (level : Nat) (hspace : c ≠ ' ') (hline : c ≠ '\n') (cs : List Char) :
    (laidOut level cs).count c = cs.count c := by
  rw [laidOut_eq]
  split_ifs
  · rw [List.count_append, count_indent level hspace, List.count_cons_of_ne hline.symm, List.count_replicate,
      if_neg (by simpa using hspace.symm), Nat.add_zero]
  · rfl

theorem not_mem_laidOut (level : Nat) (hspace : c ≠ ' ') (hline : c ≠ '\n') (h : c ∉ cs) : c ∉ laidOut level cs := by
  rw [← List.count_eq_zero] at h ⊢
  rwa [count_laidOut level hspace hline]

theorem readTriple_of_overescaped (level : Nat) (hnull : '\x00' ∉ text) (hreturn : '\r' ∉ text)
    (h : Overescaped text) : ∃ front, text = front ++ ['"'] ∧
      readTriple (['"', '"', '"'] ++ laidOut level (escape text) ++ ['"', '"', '"']) =
        if '\n' ∈ text then some (Text.ofChars (laidOut level (front ++ ['\\', '"'])), [])
        else some (Text.ofChars (front ++ ['\\']), ['"']) := by
  obtain ⟨front, code, rfl, hescape, hspells⟩ := h.escape_eq
  refine ⟨front, rfl, ?_⟩
  rw [hescape]
  by_cases hnewline : '\n' ∈ front ++ ['"']
  · have hbare : Spells 0 (front ++ ['\\', '"']) (code ++ ['"']) 1 := by
      simpa using hspells.append (.bare (by decide) .nil)
    have hlaid := hbare.laidOut level (.inr (by simpa using hnewline))
    rw [if_pos hnewline, ← List.append_nil (_ ++ _ ++ _)]
    refine hlaid.readTriple [] ?_ ?_
    · rw [List.append_nil]
      exact not_mem_laidOut level (by decide) (by decide) (by simpa using hnull)
    · rw [List.append_nil]
      exact not_mem_laidOut level (by decide) (by decide) (by simpa using hreturn)
  · have hline : '\n' ∉ code ++ ['"'] := by
      have hmem : '\n' ∈ front ++ ['\\'] ↔ '\n' ∈ code := hspells.mem_iff (by decide) (by decide)
      simpa [← hmem] using hnewline
    rw [if_neg hnewline, laidOut_eq, if_neg hline]
    have hread := hspells.readTriple ['"'] (by simpa using hnull) (by simpa using hreturn)
    simpa using hread

/-- The lines of a documentation text are one literal, which is over at its last three quotes and has the value that is
laid out, just when the text does not end in threes of quotes. When it does, a literal of one line is over one quote
early, and there is a backslash more in front of the last quote. -/
theorem readTriple_render (level : Nat) (text : String) (hnull : '\x00' ∉ text.toList) (hreturn : '\r' ∉ text.toList) :
    ∃ literal, (joinWith "\n" (render level text)).toList = (pad level).toList ++ literal ∧
      (readTriple literal = some (Text.ofChars (laidOut level text.toList), []) ↔ ¬ Overescaped text.toList) ∧
      (Overescaped text.toList → ∃ front, text.toList = front ++ ['"'] ∧ readTriple literal =
        if '\n' ∈ text.toList then some (Text.ofChars (laidOut level (front ++ ['\\', '"'])), [])
        else some (Text.ofChars (front ++ ['\\']), ['"'])) := by
  refine ⟨_, joinWith_render level text, ⟨fun hread hover => ?_, fun hover => ?_⟩,
    readTriple_of_overescaped level hnull hreturn⟩
  · obtain ⟨front, htext, hread'⟩ := readTriple_of_overescaped level hnull hreturn hover
    rw [hread'] at hread
    split_ifs at hread with hnewline
    · have hlaid := Text.ofChars_injective (Prod.mk.inj (Option.some.inj hread)).1
      have hcount := congrArg (List.count '\\') hlaid
      rw [count_laidOut level (by decide) (by decide), count_laidOut level (by decide) (by decide), htext] at hcount
      simp at hcount
    · exact absurd (Prod.mk.inj (Option.some.inj hread)).2 (by simp)
  · rw [← List.append_nil (_ ++ _ ++ _)]
    refine ((spells_escape hover).laidOut level (.inl rfl)).readTriple [] ?_ ?_
    · rw [List.append_nil]
      exact not_mem_laidOut level (by decide) (by decide) hnull
    · rw [List.append_nil]
      exact not_mem_laidOut level (by decide) (by decide) hreturn

/-- Backslashes and quotes of all sorts, in two lines and an empty one. -/
def quotedText : String := "\"\"\"\"a\\\"\"\n\n\\\"\"\"\""

theorem readTriple_quotedText : '\x00' ∉ quotedText.toList ∧ '\r' ∉ quotedText.toList ∧
    ∃ literal, (joinWith "\n" (render 1 quotedText)).toList = (pad 1).toList ++ literal ∧ readTriple literal =
      some (Text.ofString "\"\"\"\"a\\\"\"\n\n    \\\"\"\"\"\n    ", []) := by
  have hnull : '\x00' ∉ quotedText.toList := by decide
  have hreturn : '\r' ∉ quotedText.toList := by decide
  obtain ⟨literal, hlines, hread, -⟩ := readTriple_render 1 quotedText hnull hreturn
  exact ⟨hnull, hreturn, literal, hlines, hread.mpr (by decide)⟩

theorem readTriple_tripleQuotes : '\x00' ∉ "\"\"\"".toList ∧ '\r' ∉ "\"\"\"".toList ∧
    ∀ literal, (joinWith "\n" (render 1 "\"\"\"")).toList = (pad 1).toList ++ literal →
      readTriple literal ≠ some (Text.ofChars (laidOut 1 "\"\"\"".toList), []) ∧
        readTriple literal = some (Text.ofString "\"\"\\", ['"']) := by
  refine ⟨by decide, by decide, fun literal h => ?_⟩
  have hliteral : literal = "\"\"\"\\\"\\\"\\\\\"\"\"\"".toList := List.append_cancel_left h.symm
  subst hliteral
  exact ⟨by decide, rfl⟩

end Doc
end Code
end TypedErrors
