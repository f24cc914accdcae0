import Mathlib.Tactic.Ring
import TypedErrors.Proofs.Text.Expression

/-! # Quoted texts are read back

Each code point stands in a literal as itself, behind a backslash, or by its number (`Written`). Read as escapes, what
is written gives the text back (`decode_body`). -/

namespace TypedErrors

/-! ### Hexadecimal digits -/

theorem CodePoint.toNat_lt (p : CodePoint) : p.toNat < 0x110000 := by
  cases p with
  | char c =>
    have h : c.toNat < 0xD800 ∨ 0xDFFF < c.toNat ∧ c.toNat < 0x110000 := c.valid
    rw [toNat]
    omega
  | surrogate i =>
    rw [toNat]
    omega

theorem CodePoint.ofNat?_toNat (p : CodePoint) : ofNat? p.toNat = some p := by
  cases p with
  | char c =>
    have h : c.toNat < 0xD800 ∨ 0xDFFF < c.toNat ∧ c.toNat < 0x110000 := c.valid
    rw [toNat, ofNat?]
    split_ifs
    · rfl
    · omega
    · rfl
    · omega
  | surrogate i =>
    rw [toNat, ofNat?, dif_neg (by omega), dif_pos (by omega)]
    simp

namespace Quoted

variable {w n : Nat} {c d : Char} {p : CodePoint} {piece : List Char} {printable : CodePoint → Bool}

theorem hexValue?_hexDigit (h : n < 16) : Escape.hexValue? (hexDigit n) = some n := by
  revert n
  decide

theorem mem_hex (h : c ∈ hex w n) : ∃ m < 16, c = hexDigit m := by
  induction w generalizing n with
  | zero => cases h
  | succ w ih =>
    obtain h | h := List.mem_append.mp h
    · exact ih h
    · exact ⟨n % 16, Nat.mod_lt _ (by omega), List.mem_singleton.mp h⟩

theorem length_hex : (hex w n).length = w := by
  induction w generalizing n with
  | zero => rfl
  | succ w ih => rw [hex, List.length_append, ih, List.length_singleton]

/-- The digits of a number are taken for as much of it as they hold. -/
theorem takeDigits_hex (w k acc taken n : Nat) (rest : List Char) :
    Escape.takeDigits Escape.hexValue? 16 (w + k) acc taken (hex w n ++ rest) =
      Escape.takeDigits Escape.hexValue? 16 k (acc * 16 ^ w + n % 16 ^ w) (taken + w) rest := by
  induction w generalizing n k rest with
  | zero => simp [hex, Nat.mod_one]
  | succ w ih =>
    have hvalue : (acc * 16 ^ w + n / 16 % 16 ^ w) * 16 + n % 16 = acc * 16 ^ (w + 1) + n % 16 ^ (w + 1) := by
      rw [Nat.pow_succ, Nat.mul_comm (16 ^ w) 16, Nat.mod_mul]
      ring
    rw [hex, List.append_assoc, List.singleton_append, Nat.add_assoc, Nat.add_comm 1 k, ih, Escape.takeDigits,
      hexValue?_hexDigit (Nat.mod_lt n (by omega))]
    show Escape.takeDigits _ _ k _ _ _ = _
    rw [hvalue, Nat.add_assoc]

/-! ### Code points -/

/-- What stands for a code point in a literal: the character, a backslash and a letter, or its number. -/
inductive Written : CodePoint → List Char → Prop
  | plain {c : Char} (hslash : c ≠ '\\') (hnull : c ≠ '\x00') (hreturn : c ≠ '\r') (hline : c ≠ '\n') :
      Written (.char c) [c]
  | simple {c d : Char} (h : (d, c) ∈ [('\\', '\\'), ('\'', '\''), ('"', '"'), ('t', '\t'), ('n', '\n'), ('r', '\r')]) :
      Written (.char c) ['\\', d]
  | numeric {p : CodePoint} {k : Char} {w : Nat} (h : (k, w) ∈ [('x', 2), ('u', 4), ('U', 8)])
      (hw : p.toNat < 16 ^ w) : Written p ('\\' :: k :: hex w p.toNat)

theorem written_numeric (p : CodePoint) : Written p (numeric p.toNat) := by
  have hp := p.toNat_lt
  rw [Quoted.numeric]
  split_ifs
  · exact .numeric (w := 2) (by decide) (by omega)
  · exact .numeric (w := 4) (by decide) (by omega)
  · exact .numeric (w := 8) (by decide) (by omega)

theorem written_escape (hd : d = '"' ∨ d = '\'') (p : CodePoint) : Written p (escape printable d p) := by
  cases p with
  | char c =>
    rw [escape, escapeChar]
    split_ifs with hslash htab hline hreturn hascii hplain hprintable
    · rcases hslash with rfl | rfl
      · rcases hd with rfl | rfl <;> exact .simple (by decide)
      · exact .simple (by decide)
    · exact htab ▸ .simple (by decide)
    · exact hline ▸ .simple (by decide)
    · exact hreturn ▸ .simple (by decide)
    · refine .plain (fun h => hslash (.inr h)) ?_ hreturn hline
      rintro rfl
      exact absurd hplain (by decide)
    · exact written_numeric _
    · refine .plain (fun h => hslash (.inr h)) ?_ hreturn hline
      rintro rfl
      exact hascii (by decide)
    · exact written_numeric _
  | surrogate i => exact written_numeric _

/-! ### Reading back -/

open Escape

theorem read_skip (position : Nat) (cs rest : List Char) :
    Escape.read position cs.length (cs ++ rest) = Escape.read (position + cs.length) 0 rest := by
  induction cs generalizing position with
  | nil => rfl
  | cons c cs ih =>
    rw [List.length_cons, List.cons_append, Escape.read, ih, Nat.add_assoc, Nat.add_comm 1]

theorem read_escaped {position : Nat} (cs : List Char) {rest : List Char}
    (h : escaped position (cs ++ rest) = .ok ([p], cs.length)) :
    Escape.read position 0 ('\\' :: (cs ++ rest)) =
      (p :: ·) <$> Escape.read (position + (cs.length + 1)) 0 rest := by
  rw [Escape.read, if_pos rfl, h]
  show (Escape.read (position + 1) cs.length (cs ++ rest) >>= fun t => .ok ([p] ++ t)) = _
  rw [read_skip, Nat.add_assoc, Nat.add_comm 1]
  rfl

/-- The number of a code point is read back. -/
theorem escaped_numeric {k : Char} (h : (k, w) ∈ [('x', 2), ('u', 4), ('U', 8)]) (hw : p.toNat < 16 ^ w)
    (position : Nat) (rest : List Char) :
    escaped position (k :: (hex w p.toNat ++ rest)) = .ok ([p], 1 + w) := by
  have hdigits : takeDigits hexValue? 16 w 0 0 (hex w p.toNat ++ rest) = (w, p.toNat, rest) := by
    have htake := takeDigits_hex w 0 0 0 p.toNat rest
    rwa [Nat.zero_mul, Nat.zero_add, Nat.zero_add, Nat.mod_eq_of_lt hw] at htake
  simp only [List.mem_cons, Prod.mk.injEq, List.not_mem_nil, or_false] at h
  rcases h with ⟨rfl, rfl⟩ | ⟨rfl, rfl⟩ | ⟨rfl, rfl⟩ <;>
    simp [escaped, hdigits, CodePoint.ofNat?_toNat]

/-- Characters that the ASCII form keeps. -/
theorem asciiForm_append {cs : List Char} (h : ∀ c ∈ cs, c ≠ '\\' ∧ c.toNat < 0x80) (rest : List Char) :
    asciiForm (cs ++ rest) = cs ++ asciiForm rest := by
  induction cs with
  | nil => rfl
  | cons c cs ih =>
    obtain ⟨⟨hc, hascii⟩, hcs⟩ := List.forall_mem_cons.mp h
    rw [List.cons_append, List.cons_append, asciiForm, if_pos hascii, ih hcs]
    exact fun _ _ h => absurd h hc

theorem hex_kept (w n : Nat) : ∀ c ∈ hex w n, c ≠ '\\' ∧ c.toNat < 0x80 := by
  intro c hc
  obtain ⟨m, hm, rfl⟩ := mem_hex hc
  clear hc
  revert m
  decide

theorem asciiForm_escape {c : Char} (hc : c.toNat < 0x80) (rest : List Char) :
    asciiForm ('\\' :: c :: rest) = '\\' :: c :: asciiForm rest := by
  rw [asciiForm, if_pos hc]

/-- In the ASCII form a code point is read back from what stands for it, whatever follows. -/
def ReadBack (p : CodePoint) (piece : List Char) : Prop :=
  ∃ form, (∀ rest, asciiForm (piece ++ rest) = form ++ asciiForm rest) ∧
    ∀ position rest, Escape.read position 0 (form ++ rest) =
      (p :: ·) <$> Escape.read (position + form.length) 0 rest

theorem read_numeric {k : Char} (h : (k, w) ∈ [('x', 2), ('u', 4), ('U', 8)]) (hw : p.toNat < 16 ^ w)
    (position : Nat) (rest : List Char) : Escape.read position 0 ('\\' :: k :: hex w p.toNat ++ rest) =
      (p :: ·) <$> Escape.read (position + ('\\' :: k :: hex w p.toNat).length) 0 rest := by
  refine read_escaped (k :: hex w p.toNat) ?_
  rw [List.length_cons, length_hex, Nat.add_comm]
  exact escaped_numeric h hw position rest

theorem ReadBack.plain (hslash : c ≠ '\\') : ReadBack (.char c) [c] := by
  by_cases hascii : c.toNat < 0x80
  · refine ⟨[c], asciiForm_append (List.forall_mem_singleton.mpr ⟨hslash, hascii⟩), fun position rest => ?_⟩
    rw [List.singleton_append, Escape.read, if_neg hslash]
    rfl
  · refine ⟨'\\' :: 'U' :: hex 8 c.toNat, fun rest => ?_, read_numeric (p := .char c) (k := 'U') (by decide) ?_⟩
    · rw [List.singleton_append, asciiForm, if_neg hascii]
      exact fun _ _ h => absurd h hslash
    · have hlt := (CodePoint.char c).toNat_lt
      omega

theorem ReadBack.simple (h : (d, c) ∈ [('\\', '\\'), ('\'', '\''), ('"', '"'), ('t', '\t'), ('n', '\n'), ('r', '\r')]) :
    ReadBack (.char c) ['\\', d] := by
  have hkept : d.toNat < 0x80 ∧ ∀ position rest, escaped position (d :: rest) = .ok ([.char c], 1) := by
    simp only [List.mem_cons, Prod.mk.injEq, List.not_mem_nil, or_false] at h
    rcases h with ⟨rfl, rfl⟩ | ⟨rfl, rfl⟩ | ⟨rfl, rfl⟩ | ⟨rfl, rfl⟩ | ⟨rfl, rfl⟩ | ⟨rfl, rfl⟩ <;>
      exact ⟨by decide, fun _ _ => rfl⟩
  exact ⟨['\\', d], asciiForm_escape hkept.1, fun position rest => read_escaped [d] (hkept.2 position rest)⟩

theorem Written.read_back (h : Written p piece) : ReadBack p piece := by
  cases h with
  | plain hslash => exact .plain hslash
  | simple h => exact .simple h
  | @numeric _ k w h hw =>
    have hk : k.toNat < 0x80 := by
      revert h
      simp only [List.mem_cons, Prod.mk.injEq, List.not_mem_nil, or_false]
      rintro (⟨rfl, -⟩ | ⟨rfl, -⟩ | ⟨rfl, -⟩) <;> decide
    refine ⟨_, fun rest => ?_, read_numeric h hw⟩
    rw [List.cons_append, List.cons_append, asciiForm_escape hk, asciiForm_append (hex_kept w _)]
    rfl

theorem read_body (hd : d = '"' ∨ d = '\'') (t : Text) (position : Nat) :
    Escape.read position 0 (asciiForm (body printable d t)) = .ok t := by
  induction t generalizing position with
  | nil => rfl
  | cons p t ih =>
    have hwritten : Written p (escape printable d p) := written_escape hd p
    obtain ⟨form, hform, hread⟩ := hwritten.read_back
    rw [body, List.flatMap_cons, hform, hread, ← body, ih]
    rfl

/-! ### What the text of a literal holds -/

theorem hex_ne {e : Char} (he : e = '\x00' ∨ e = '\r' ∨ e = '\n' ∨ e = '"' ∨ e = '\'') : ∀ c ∈ hex w n, c ≠ e := by
  intro c hc
  obtain ⟨m, hm, rfl⟩ := mem_hex hc
  clear hc
  revert m
  rcases he with rfl | rfl | rfl | rfl | rfl <;> decide

/-- Neither a null character nor a line end is in the text of a literal. -/
theorem Written.ne {e : Char} (he : e = '\x00' ∨ e = '\r' ∨ e = '\n') (h : Written p piece) : ∀ c ∈ piece, c ≠ e := by
  cases h with
  | plain hslash hnull hreturn hline =>
    rcases he with rfl | rfl | rfl <;> exact List.forall_mem_singleton.mpr ‹_›
  | @simple c d h =>
    simp only [List.mem_cons, Prod.mk.injEq, List.not_mem_nil, or_false] at h
    rcases h with ⟨rfl, -⟩ | ⟨rfl, -⟩ | ⟨rfl, -⟩ | ⟨rfl, -⟩ | ⟨rfl, -⟩ | ⟨rfl, -⟩ <;>
      rcases he with rfl | rfl | rfl <;> simp
  | @numeric _ k w h =>
    simp only [List.mem_cons, Prod.mk.injEq, List.not_mem_nil, or_false] at h
    have hdigits : ∀ c ∈ hex w p.toNat, c ≠ e := hex_ne (by tauto)
    refine List.forall_mem_cons.mpr ⟨?_, List.forall_mem_cons.mpr ⟨?_, hdigits⟩⟩
    · rcases he with rfl | rfl | rfl <;> decide
    · rcases h with ⟨rfl, -⟩ | ⟨rfl, -⟩ | ⟨rfl, -⟩ <;> rcases he with rfl | rfl | rfl <;> decide

theorem not_mem_body {e : Char} (he : e = '\x00' ∨ e = '\r' ∨ e = '\n') (hd : d = '"' ∨ d = '\'') (t : Text) :
    e ∉ body printable d t := by
  intro h
  obtain ⟨p, -, hp⟩ := List.mem_flatMap.mp h
  exact (written_escape hd p).ne he e hp rfl

theorem unifyLineEnds_of_not_mem {cs : List Char} (h : '\r' ∉ cs) : unifyLineEnds cs = cs := by
  fun_induction unifyLineEnds cs with
  | case1 cs ih => exact absurd List.mem_cons_self h
  | case2 cs _ ih => exact absurd List.mem_cons_self h
  | case3 c cs _ _ ih => rw [ih fun hmem => h (List.mem_cons_of_mem c hmem)]
  | case4 => rfl

/-- Characters that leave a literal as open as it is. -/
theorem openLine?_append {cs : List Char} (h : ∀ c ∈ cs, c ≠ '\\' ∧ c ≠ '\n') (line : Nat) (rest : List Char) :
    openLine? line (cs ++ rest) = openLine? line rest := by
  induction cs with
  | nil => rfl
  | cons c cs ih =>
    obtain ⟨⟨hslash, hline⟩, hcs⟩ := List.forall_mem_cons.mp h
    rw [List.cons_append, openLine?, if_neg hline, ih hcs]
    · exact fun hc _ => hslash hc
    · exact fun _ _ hc _ => hslash hc

/-- What stands for a code point neither ends a line nor takes the closing quote. -/
theorem Written.openLine? (h : Written p piece) (line : Nat) (rest : List Char) :
    openLine? line (piece ++ rest) = openLine? line rest := by
  cases h with
  | plain hslash _ _ hline => exact openLine?_append (List.forall_mem_singleton.mpr ⟨hslash, hline⟩) line rest
  | @simple c d h =>
    have hd : d ≠ '\n' := by
      rintro rfl
      exact absurd h (by simp)
    rw [List.cons_append, List.singleton_append, Escape.openLine?, if_neg hd]
  | @numeric _ k w h hw =>
    have hk : k ≠ '\n' := by
      rintro rfl
      exact absurd h (by simp)
    rw [List.cons_append, List.cons_append, Escape.openLine?, if_neg hk]
    exact openLine?_append (fun c hc => ⟨(hex_kept w _ c hc).1, hex_ne (.inr (.inr (.inl rfl))) c hc⟩) line rest

theorem openLine?_body (hd : d = '"' ∨ d = '\'') (t : Text) (line : Nat) :
    openLine? line (body printable d t) = none := by
  induction t with
  | nil => rfl
  | cons p t ih =>
    have hwritten : Written p (escape printable d p) := written_escape hd p
    rw [body, List.flatMap_cons, hwritten.openLine?, ← body, ih]

/-- The text of a literal denotes what it was written for. -/
theorem decode_body (hd : d = '"' ∨ d = '\'') (t : Text) : decode false (body printable d t) = .ok t := by
  have hnull : (body printable d t).contains '\x00' = false := by
    simpa using not_mem_body (.inl rfl) hd t
  rw [decode, unifyLineEnds_of_not_mem (not_mem_body (.inr (.inl rfl)) hd t), hnull,
    openLine?_body hd, denoted, read_body hd]
  rfl

theorem numeric_ne (n : Nat) (c : Char) : numeric n ≠ [c] := by
  rw [numeric]
  split_ifs <;> simp

/-- The delimiter does not stand alone. -/
theorem escape_ne (p : CodePoint) : escape printable d p ≠ [d] := by
  cases p with
  | char c =>
    rw [escape, escapeChar]
    split_ifs with hslash
    all_goals simp_all [numeric_ne]
  | surrogate i => exact numeric_ne _ d

/-! ### Single literals -/

open Expression

theorem isOpen_append {cs : List Char} (h : ∀ c ∈ cs, c ≠ '\\' ∧ c ≠ d) (rest : List Char) :
    isOpen d (cs ++ rest) = isOpen d rest := by
  induction cs with
  | nil => rfl
  | cons c cs ih =>
    obtain ⟨⟨hslash, hquote⟩, hcs⟩ := List.forall_mem_cons.mp h
    rw [List.cons_append, isOpen_cons hslash, ih hcs, decide_eq_true hquote, Bool.true_and]

theorem Written.isOpen (h : Written p piece) (hd : d = '"' ∨ d = '\'') (hpiece : piece ≠ [d]) (rest : List Char) :
    isOpen d (piece ++ rest) = isOpen d rest := by
  cases h with
  | plain hslash => exact isOpen_append (List.forall_mem_singleton.mpr ⟨hslash, fun h => hpiece (by rw [h])⟩) rest
  | simple => rfl
  | @numeric _ k w =>
    exact isOpen_append (fun c hc => ⟨(hex_kept w _ c hc).1, hex_ne (by tauto) c hc⟩) rest

theorem isOpen_body (hd : d = '"' ∨ d = '\'') (t : Text) : isOpen d (body printable d t) = true := by
  induction t with
  | nil => rfl
  | cons p t ih =>
    have hwritten : Written p (escape printable d p) := written_escape hd p
    rw [body, List.flatMap_cons, hwritten.isOpen hd (escape_ne p), ← body, ih]

theorem single?_within (hd : d = '"' ∨ d = '\'') (t : Text) :
    single? (within printable d t) = some (false, body printable d t) :=
  have hquote : isQuote d = true := isQuote_iff.mpr hd
  single?_of_unlettered hquote (isOpen_body hd t) (unlettered_cons hquote _)

end Quoted
end TypedErrors
