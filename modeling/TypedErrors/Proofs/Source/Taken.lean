import TypedErrors.Proofs.Source.Tokens

/-! # Tokens that are taken

A parser takes the tokens ahead one after another (`Takes`). They stand in the source in this order, each at the
place it notes down, so that a stretch of the source goes from the first of them to the last (`Takes.spread`). -/

namespace TypedErrors

/-! ### Lengths of tokens -/

namespace Scan

variable {accepts : List Terminal} {cs : List Char} {n : Nat} {t : Terminal}

theorem classRead_eq_some {u : Terminal} {o : Option Nat} (h : classRead accepts u o = some (t, n)) :
    u = t ∧ o = some n := by
  rw [classRead] at h
  split_ifs at h
  obtain ⟨m, hm, heq⟩ := Option.map_eq_some_iff.mp h
  obtain ⟨rfl, rfl⟩ := Prod.mk.inj heq
  exact ⟨rfl, hm⟩

theorem le_of_stringRest? {acc : Nat} (h : stringRest? acc cs = some n) : acc ≤ n := by
  fun_induction stringRest? acc cs with
  | case1 acc => exact Nat.le_of_succ_le (Nat.le_of_eq (Option.some.inj h))
  | case2 => cases h
  | case3 acc c cs hline ih => exact Nat.le_trans (by omega) (ih h)
  | case4 => cases h
  | case5 acc c cs _ _ hne ih => exact Nat.le_trans (by omega) (ih h)
  | case6 => cases h

theorem pos_of_fixed? {spelling? : Terminal → Option String} (hne : ∀ t s, spelling? t = some s → s.toList ≠ [])
    {ts : List Terminal} (h : fixed? spelling? cs ts = some (t, n)) : 0 < n := by
  induction ts with
  | nil => cases h
  | cons u ts ih =>
    rw [fixed?] at h
    split at h
    · next s hs =>
      split_ifs at h
      · obtain ⟨-, rfl⟩ := Prod.mk.inj (Option.some.inj h)
        exact List.length_pos_iff.mpr (hne u s hs)
      · exact ih h
    · exact ih h

theorem symbol_ne_nil (t : Terminal) (s : String) (h : t.symbol? = some s) : s.toList ≠ [] := by
  obtain ⟨c, cs, hs, -⟩ := symbol_start h
  rw [hs]
  exact List.cons_ne_nil c cs

theorem word_ne_nil (t : Terminal) (s : String) (h : t.word? = some s) : s.toList ≠ [] := by
  generalize hs : s.toList = cs
  have hname : NameText cs := hs ▸ nameText_of_word h
  cases hname
  exact List.cons_ne_nil _ _

theorem le_countWhile (p : Char → Bool) (acc : Nat) (cs : List Char) : acc ≤ countWhile p acc cs := by
  rw [countWhile_eq]
  exact Nat.le_add_right ..

theorem pos_of_name? (h : name? cs = some n) : 0 < n := by
  cases cs with
  | nil => cases h
  | cons c cs =>
    rw [name?] at h
    split_ifs at h
    obtain rfl := Option.some.inj h
    exact le_countWhile _ 1 cs

theorem pos_of_digits? (h : digits? cs = some n) : 0 < n := by
  cases cs with
  | nil => cases h
  | cons c cs =>
    rw [digits?] at h
    split_ifs at h
    obtain rfl := Option.some.inj h
    exact le_countWhile _ 1 cs

theorem pos_of_float? (h : float? cs = some n) : 0 < n := by
  rw [float?] at h
  obtain ⟨whole, hwhole, h⟩ := Option.bind_eq_some_iff.mp h
  have hpos := pos_of_digits? hwhole
  split at h
  · obtain ⟨fraction, -, h⟩ := Option.bind_eq_some_iff.mp h
    obtain rfl := Option.some.inj h
    omega
  · obtain ⟨exponent, -, h⟩ := Option.bind_eq_some_iff.mp h
    obtain rfl := Option.some.inj h
    omega

theorem pos_of_doc? (h : doc? cs = some n) : 0 < n := by
  unfold doc? at h
  split at h
  · obtain rfl := Option.some.inj h
    omega
  · cases h

theorem pos_of_string? (h : string? cs = some n) : 0 < n := by
  unfold string? at h
  split at h
  · exact le_of_stringRest? h
  · cases h

theorem pos_of_char? (h : char? cs = some n) : 0 < n := by
  unfold char? at h
  split at h
  · dsimp only at h
    split_ifs at h
    obtain rfl := Option.some.inj h
    omega
  · split_ifs at h
    obtain rfl := Option.some.inj h
    omega
  · cases h

theorem pos_of_int? (h : int? cs = some n) : 0 < n := by
  unfold int? at h
  split at h
  · dsimp only at h
    split_ifs at h <;> first | exact pos_of_digits? h | (obtain rfl := Option.some.inj h; omega)
  · exact pos_of_digits? h

/-- A token has a character. -/
theorem pos_of_terminal? (h : terminal? accepts cs = some (t, n)) : 0 < n := by
  rw [terminal?_eq] at h
  simp only [Option.orElse_eq_orElse, Option.orElse_eq_or, Option.or_eq_some_iff] at h
  rcases h with h | ⟨-, h | ⟨-, h | ⟨-, h | ⟨-, h | ⟨-, h | ⟨-, h | ⟨-, h⟩⟩⟩⟩⟩⟩⟩
  · exact pos_of_float? (classRead_eq_some h).2
  · exact pos_of_doc? (classRead_eq_some h).2
  · obtain ⟨⟨u, m⟩, hread, heq⟩ := Option.map_eq_some_iff.mp h
    obtain ⟨rfl, rfl⟩ := Prod.mk.inj heq
    exact pos_of_name? (classRead_eq_some hread).2
  · exact pos_of_string? (classRead_eq_some h).2
  · exact pos_of_char? (classRead_eq_some h).2
  · exact pos_of_int? (classRead_eq_some h).2
  · split_ifs at h
    exact pos_of_fixed? word_ne_nil h
  · exact pos_of_fixed? symbol_ne_nil h

end Scan

/-! ### Places in a source -/

variable {source pre : List Char} {a b c : Lookahead} {t : Token} {ts us : List Token}

/-- The place just past the characters, the first of which stands at `p`. -/
def Position.past (p : Position) (cs : List Char) : Position := cs.foldl Position.after p

theorem Position.past_append (p : Position) (cs ds : List Char) : p.past (cs ++ ds) = (p.past cs).past ds :=
  List.foldl_append

/-- The cursor stands in the source with `pre` before it. -/
structure Cursor.At (source pre : List Char) (c : Cursor) : Prop where
  source : source = pre ++ c.rest
  position : c.position = Position.past {} pre

theorem Cursor.at_ofString (source : String) : (Cursor.ofString source).At source.toList [] := ⟨rfl, rfl⟩

theorem Cursor.position_advance (n : Nat) (c : Cursor) : (c.advance n).position = c.position.past (c.rest.take n) := by
  induction n generalizing c with
  | zero => rfl
  | succ n ih =>
    obtain ⟨p, cs⟩ := c
    cases cs with
    | nil => rfl
    | cons x cs => exact ih _

theorem Cursor.At.advance {c : Cursor} (h : c.At source pre) (n : Nat) :
    (c.advance n).At source (pre ++ c.rest.take n) := by
  constructor
  · rw [Scan.rest_advance, List.append_assoc, List.take_append_drop, h.source]
  · rw [Cursor.position_advance, Position.past_append, h.position]

/-- The token ahead stands in the source with `pre` before it, and the cursor after it. -/
structure Lookahead.At (source pre : List Char) (a : Lookahead) (t : Token) : Prop where
  start : t.start = Position.past {} pre
  text : t.text.toList ≠ []
  after : a.after.At source (pre ++ t.text.toList)

theorem Lookahead.At.of_fetch {site : Site} {last : Option Token} {c : Cursor} (hc : c.At source pre)
    (h : fetch site last c = .ok a) (ht : a.token? = some t) : ∃ gap, a.At source (pre ++ gap) t := by
  rw [fetch] at h
  split at h
  · next t' after hnext =>
    obtain rfl := Except.ok.inj h
    obtain rfl := Option.some.inj ht
    simp only [Scan.next] at hnext
    -- the gap is the `k` characters that are skipped, and the token the `m` after them
    generalize Scan.trivia _ 0 0 c.rest = k at hnext
    have hk := hc.advance k
    split at hnext
    · cases hnext
    · next x rest hrest =>
      split at hnext
      · next u m hterminal =>
        obtain ⟨rfl, rfl⟩ := Scan.Outcome.token.inj hnext
        refine ⟨c.rest.take k, hk.position, ?_, ?_⟩
        · rw [Scan.take, String.toList_ofList, hrest, ne_eq, List.take_eq_nil_iff]
          have hpos := Scan.pos_of_terminal? hterminal
          rintro (hm | hnil)
          · exact hpos.ne' hm
          · cases hnil
        · rw [Scan.take, String.toList_ofList]
          exact hk.advance m
      · split at hnext <;> cases hnext
  · split_ifs at h
    obtain rfl := Except.ok.inj h
    cases ht
  · cases h
  · cases h

/-! ### Tokens in order -/

/-- The tokens are taken one after another from `a` on, and then `b` is reached. -/
inductive Takes : Lookahead → List Token → Lookahead → Prop
  | nil {a : Lookahead} : Takes a [] a
  | cons {a b c : Lookahead} {t : Token} {ts : List Token} {site : Site} (ht : a.token? = some t)
      (hb : Lookahead.fetch site (some t) a.after = .ok b) (h : Takes b ts c) : Takes a (t :: ts) c

namespace Takes

theorem append (h : Takes a ts b) (h' : Takes b us c) : Takes a (ts ++ us) c := by
  induction h with
  | nil => exact h'
  | cons ht hb _ ih => exact .cons ht hb (ih h')

theorem head (h : Takes a (t :: ts) b) : a.token? = some t := by
  cases h with
  | cons ht => exact ht

end Takes

/-- The tokens stand in the text one after another, the first of them at its start, where the place is `p`, and the
last at its end. None of them is empty. -/
inductive Spread : (p : Position) → (text : List Char) → List Token → Prop
  | last {t : Token} (ht : t.text.toList ≠ []) : Spread t.start t.text.toList [t]
  | cons {t : Token} {gap text : List Char} {ts : List Token} (ht : t.text.toList ≠ [])
      (h : Spread (t.start.past (t.text.toList ++ gap)) text ts) :
      Spread t.start (t.text.toList ++ gap ++ text) (t :: ts)

/-- The token ahead, if there is one, stands in the source. -/
def Lookahead.In (source : List Char) (a : Lookahead) : Prop := ∀ t, a.token? = some t → ∃ pre, a.At source pre t

theorem Lookahead.in_of_fetch {site : Site} {last : Option Token} {c : Cursor} (hc : c.At source pre)
    (h : fetch site last c = .ok a) : a.In source := by
  intro t ht
  obtain ⟨gap, hat⟩ := Lookahead.At.of_fetch hc h ht
  exact ⟨_, hat⟩

theorem Takes.lookahead_in (h : Takes a ts b) (ha : a.In source) : b.In source := by
  induction h with
  | nil => exact ha
  | cons ht hb _ ih =>
    obtain ⟨pre, hat⟩ := ha _ ht
    exact ih (Lookahead.in_of_fetch hat.after hb)

/-- Tokens that are taken are spread over a stretch of the source. -/
theorem Takes.spread (h : Takes a (t :: ts) b) (ha : a.At source pre t) :
    ∃ text after, source = pre ++ text ++ after ∧ Spread (Position.past {} pre) text (t :: ts) := by
  induction ts generalizing a pre t with
  | nil =>
    rw [← ha.start]
    exact ⟨_, a.after.rest, ha.after.source, .last ha.text⟩
  | cons u us ih =>
    obtain _ | ⟨ht, hnext, h⟩ := h
    -- where `u` stands is known from where it is fetched, just past `t`
    obtain ⟨gap, hu⟩ := Lookahead.At.of_fetch ha.after hnext h.head
    obtain ⟨text, after, hsource, hspread⟩ := ih h hu
    refine ⟨t.text.toList ++ gap ++ text, after, by rw [hsource]; simp only [List.append_assoc], ?_⟩
    rw [List.append_assoc, Position.past_append, ← ha.start] at hspread
    rw [← ha.start]
    exact .cons ha.text hspread

/-- Every token starts at a character of the text. -/
theorem Spread.start_in {p : Position} {text : List Char} (h : Spread p text ts) :
    ∀ t ∈ ts, ∃ x y, text = x ++ y ∧ y ≠ [] ∧ t.start = p.past x := by
  induction h with
  | @last t ht => exact List.forall_mem_singleton.mpr ⟨[], t.text.toList, rfl, ht, rfl⟩
  | @cons t gap text ts ht _ ih =>
    have hne : t.text.toList ++ gap ++ text ≠ [] :=
      List.append_ne_nil_of_left_ne_nil (List.append_ne_nil_of_left_ne_nil ht gap) text
    refine List.forall_mem_cons.mpr ⟨⟨[], _, rfl, hne, rfl⟩, fun u hu => ?_⟩
    obtain ⟨x, y, rfl, hy, hstart⟩ := ih u hu
    exact ⟨t.text.toList ++ gap ++ x, y, (List.append_assoc ..).symm, hy, hstart.trans (Position.past_append ..).symm⟩

end TypedErrors
