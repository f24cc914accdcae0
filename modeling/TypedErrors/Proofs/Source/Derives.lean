import TypedErrors.Proofs.Source.Laid

/-! # What is derived from tokens

A parser derives what it returns from the tokens that it takes (`Derives`). While it runs, the tokens taken so far and
the terminal ahead are known; there is one rule for each step that a parser can make. -/

namespace TypedErrors

variable {t : Token} {ts us pre : List Token} {a b o : Lookahead} {site : Site}

/-! ### Texts of tokens -/

namespace Scan

variable {accepts : List Terminal} {cs : List Char} {n : Nat} {u : Terminal}

theorem docText_of_doc? (h : doc? cs = some n) : DocText (cs.take n) := by
  unfold doc? at h
  split at h
  · next cs =>
    obtain rfl := Option.some.inj h
    rw [Nat.add_comm, toLineEnd_eq, List.take_succ_cons, List.take_succ_cons, List.take_succ_cons,
      ← List.prefix_iff_eq_take.mp (List.takeWhile_prefix _)]
    exact .mk fun hmem => by simpa using List.mem_takeWhile_imp hmem
  · cases h

theorem take_of_fixed? {spelling? : Terminal → Option String} {ts : List Terminal}
    (h : fixed? spelling? cs ts = some (u, n)) : ∃ s, spelling? u = some s ∧ cs.take n = s.toList := by
  obtain ⟨-, s, hs, hfront, rfl⟩ := fixed?_eq_some h
  refine ⟨s, hs, ?_⟩
  rw [← String.length_toList]
  exact (List.prefix_iff_eq_take.mp hfront).symm

theorem symbol?_of_word? {s : String} (h : u.word? = some s) : u.symbol? = none := by
  cases u <;> first | rfl | cases h

/-- The text is spelled as the terminal is. -/
def Spelling (u : Terminal) (text : List Char) : Prop :=
  (∀ s, u.symbol? = some s ∨ u.word? = some s → text = s.toList) ∧ (u = .doc → DocText text)

theorem spelling_of_class {text : List Char} (hu : u.symbol? = none ∧ u.word? = none) (hdoc : u = .doc → DocText text) :
    Spelling u text :=
  ⟨fun s hs => by simp [hu] at hs, hdoc⟩

theorem spelling_of_word? {s : String} (h : u.word? = some s) : Spelling u s.toList := by
  refine ⟨fun s' hs' => ?_, by rintro rfl; cases h⟩
  rcases hs' with hs' | hs'
  · cases (symbol?_of_word? h).symm.trans hs'
  · rw [Option.some.inj (h.symm.trans hs')]

theorem spelling_of_symbol? {s : String} (h : u.symbol? = some s) : Spelling u s.toList := by
  refine ⟨fun s' hs' => ?_, by rintro rfl; cases h⟩
  rcases hs' with hs' | hs'
  · rw [Option.some.inj (h.symm.trans hs')]
  · cases (symbol?_of_word? hs').symm.trans h

theorem spelling_nameOrWord (text : List Char) : Spelling (nameOrWord accepts text) text := by
  rw [nameOrWord]
  cases hfind : accepts.find? fun u => u.word? = some (String.ofList text) with
  | none =>
    refine spelling_of_class (u := .name) (by decide) fun hdoc => ?_
    cases hdoc
  | some u =>
    have hfound := List.find?_some hfind
    have hword := spelling_of_word? (of_decide_eq_true hfound)
    rwa [String.toList_ofList] at hword

theorem spelling_of_terminal? (h : terminal? accepts cs = some (u, n)) : Spelling u (cs.take n) := by
  have hclass {v : Terminal} {m : Option Nat} (hv : (v.symbol? = none ∧ v.word? = none) ∧ v ≠ .doc)
      (h : classRead accepts v m = some (u, n)) : Spelling u (cs.take n) := by
    obtain ⟨rfl, -⟩ := classRead_eq_some h
    exact spelling_of_class hv.1 fun hdoc => absurd hdoc hv.2
  rw [terminal?_eq] at h
  simp only [Option.orElse_eq_orElse, Option.orElse_eq_or, Option.or_eq_some_iff] at h
  rcases h with h | ⟨-, h | ⟨-, h | ⟨-, h | ⟨-, h | ⟨-, h | ⟨-, h | ⟨-, h⟩⟩⟩⟩⟩⟩⟩
  · exact hclass (by decide) h
  · obtain ⟨rfl, hread⟩ := classRead_eq_some h
    exact spelling_of_class (by decide) fun _ => docText_of_doc? hread
  · obtain ⟨⟨v, m⟩, hread, heq⟩ := Option.map_eq_some_iff.mp h
    obtain ⟨rfl, rfl⟩ := Prod.mk.inj heq
    exact spelling_nameOrWord _
  · exact hclass (by decide) h
  · exact hclass (by decide) h
  · exact hclass (by decide) h
  · split_ifs at h
    obtain ⟨s, hs, htake⟩ := take_of_fixed? h
    exact htake ▸ spelling_of_word? hs
  · obtain ⟨s, hs, htake⟩ := take_of_fixed? h
    exact htake ▸ spelling_of_symbol? hs

end Scan

/-- The token ahead is spelled as its terminal is. -/
def Lookahead.Spelt (a : Lookahead) : Prop := ∀ t, a.token? = some t → Scan.Spelling t.terminal t.text.toList

theorem Lookahead.spelt_of_fetch {last : Option Token} {c : Cursor} (h : fetch site last c = .ok a) : a.Spelt := by
  intro t ht
  obtain ⟨gap, -, -, hread⟩ := gap_of_fetch h ht
  have hspelling := Scan.spelling_of_terminal? hread
  rwa [List.take_left] at hspelling

theorem Takes.spelt (h : Takes a ts b) (ha : a.Spelt) : b.Spelt := by
  induction h with
  | nil => exact ha
  | cons _ hb _ ih => exact ih (Lookahead.spelt_of_fetch hb)

theorem Takes.last (h : Takes a (ts ++ [t]) b) : b.last = some t := by
  induction ts generalizing a with
  | nil =>
    obtain _ | ⟨ht, hb, h⟩ := h
    cases h
    exact Lookahead.last_of_fetch hb
  | cons u us ih =>
    obtain _ | ⟨-, -, h⟩ := h
    exact ih h

theorem Parse.there_eq_ok {p : Position} (ha : a.last = some t) (h : there a = .ok (p, b)) : p = t.stop := by
  obtain ⟨token?, after, last⟩ := a
  obtain rfl := ha
  exact (Prod.mk.inj (Except.ok.inj h)).1.symm

/-! ### Derivations -/

/-- When the tokens `pre` have been taken and the terminal is ahead, the parser takes tokens, and `Q` holds of all tokens
taken then, of the terminal ahead then and of what is returned. -/
def Derives {α : Type} (pre : List Token) (ahead : Option Terminal) (x : Parse α)
    (Q : List Token → Option Terminal → α → Prop) : Prop :=
  ∀ o a v b, Takes o pre a → a.head? = ahead → a.Spelt → x a = .ok (v, b) → ∃ ts, Takes a ts b ∧ Q (pre ++ ts) b.head? v

namespace Derives

variable {α β : Type} {ahead : Option Terminal} {x : Parse α} {f : α → Parse β} {v : α}
  {P P' : List Token → Option Terminal → α → Prop} {Q : List Token → Option Terminal → β → Prop}

theorem pure (h : P pre ahead v) : Derives pre ahead (Pure.pure v) P := by
  rintro o a w b - rfl - hw
  obtain ⟨rfl, rfl⟩ := Prod.mk.inj (Except.ok.inj hw)
  exact ⟨[], .nil, (List.append_nil pre).symm ▸ h⟩

theorem exhausted : Derives pre ahead Parse.exhausted P := by
  intro o a v b _ _ _ h
  cases h

theorem mono (hx : Derives pre ahead x P) (h : ∀ ts k v, P ts k v → P' ts k v) : Derives pre ahead x P' := by
  intro o a v b ho ha hs hv
  obtain ⟨ts, hts, hP⟩ := hx o a v b ho ha hs hv
  exact ⟨ts, hts, h _ _ _ hP⟩

theorem bind (hx : Derives pre ahead x P) (hf : ∀ ts k v, P ts k v → Derives ts k (f v) Q) :
    Derives pre ahead (x >>= f) Q := by
  intro o a w b ho ha hs hw
  obtain ⟨v, c, hv, hw⟩ := Parse.bind_eq_ok.mp hw
  obtain ⟨ts, hts, hP⟩ := hx o a v c ho ha hs hv
  obtain ⟨us, hus, hQ⟩ := hf _ _ v hP o c w b (ho.append hts) rfl (hts.spelt hs) hw
  exact ⟨ts ++ us, hts.append hus, List.append_assoc pre ts us ▸ hQ⟩

theorem bind_pure (hf : Derives pre ahead (f v) Q) : Derives pre ahead (Pure.pure v >>= f) Q := by
  rwa [pure_bind]

/-- What is derived does not depend on the tokens taken before. -/
theorem frame (hx : Derives [] ahead x P) : Derives pre ahead x fun ts k v => ∃ us, ts = pre ++ us ∧ P us k v := by
  intro o a v b _ ha hs hv
  obtain ⟨ts, hts, hP⟩ := hx a a v b .nil ha hs hv
  exact ⟨ts, hts, ts, rfl, hP⟩

/-- The rule for a part of the grammar, and what comes after it. -/
theorem bind_part (hx : Derives [] ahead x P) (hf : ∀ us k v, P us k v → Derives (pre ++ us) k (f v) Q) :
    Derives pre ahead (x >>= f) Q := by
  refine bind hx.frame fun ts k v => ?_
  rintro ⟨us, rfl, hP⟩
  exact hf us k v hP

/-- The rule for a part of the grammar that comes last. -/
theorem part (hx : Derives [] ahead x P) (h : ∀ us k v, P us k v → P' (pre ++ us) k v) : Derives pre ahead x P' := by
  refine hx.frame.mono fun ts k v => ?_
  rintro ⟨us, rfl, hP⟩
  exact h us k v hP

theorem bind_peek {f : Option Terminal → Parse β} (hf : Derives pre ahead (f ahead) Q) :
    Derives pre ahead (Parse.peek >>= f) Q := by
  intro o a w b ho ha hs hw
  obtain ⟨k, c, hk, hrest⟩ := Parse.bind_eq_ok.mp hw
  obtain ⟨rfl, rfl⟩ := Prod.mk.inj (Except.ok.inj hk)
  exact hf o a w b ho ha hs (ha ▸ hrest)

theorem bind_check {f : Unit → Parse β} (hf : site.admits ahead = true → Derives pre ahead (f ()) Q) :
    Derives pre ahead (Parse.check site >>= f) Q := by
  intro o a w b ho ha hs hw
  obtain ⟨u, c, hu, hrest⟩ := Parse.bind_eq_ok.mp hw
  obtain ⟨hadmits, rfl⟩ := Parse.check_eq_ok.mp hu
  exact hf (ha ▸ hadmits) o c w b ho ha hs hrest

theorem bind_shift {f : Token → Parse β} (hf : ∀ t k, ahead = some t.terminal →
    Scan.Spelling t.terminal t.text.toList → site.admits k = true → Derives (pre ++ [t]) k (f t) Q) :
    Derives pre ahead (Parse.shift site >>= f) Q := by
  intro o a w b ho ha hs hw
  obtain ⟨t, c, ht, hw⟩ := Parse.bind_eq_ok.mp hw
  obtain ⟨htoken, hfetch⟩ := Parse.shift_eq_ok.mp ht
  have hstep : Takes a [t] c := .cons htoken hfetch .nil
  have hahead : ahead = some t.terminal := by rw [← ha, Lookahead.head?, htoken, Option.map_some]
  obtain ⟨us, hus, hQ⟩ := hf t c.head? hahead (hs t htoken) (Lookahead.admits_of_fetch hfetch) o c w b
    (ho.append hstep) rfl (hstep.spelt hs) hw
  exact ⟨t :: us, hstep.append hus, List.append_assoc pre [t] us ▸ hQ⟩

theorem bind_here {f : Position → Parse β} (hf : ∀ p, Derives pre ahead (f p) fun ts k w =>
    ∃ t us, ts = pre ++ t :: us ∧ (p = t.start → Q ts k w)) : Derives pre ahead (Parse.here >>= f) Q := by
  intro o a w b ho ha hs hw
  obtain ⟨p, c, hp, hrest⟩ := Parse.bind_eq_ok.mp hw
  obtain rfl := Parse.here_still hp
  obtain ⟨ts, hts, t, us, heq, hQ⟩ := hf p o c w b ho ha hs hrest
  obtain rfl := List.append_cancel_left heq
  exact ⟨_, hts, hQ (Parse.here_eq_ok hts.head hp)⟩

/-- The rule for a look at where the last token ends, when one has been taken. -/
theorem bind_there {f : Position → Parse β} (hf : Derives (ts ++ [t]) ahead (f t.stop) Q) :
    Derives (ts ++ [t]) ahead (Parse.there >>= f) Q := by
  intro o a w b ho ha hs hw
  obtain ⟨p, c, hp, hrest⟩ := Parse.bind_eq_ok.mp hw
  obtain rfl := Parse.there_still hp
  obtain rfl := Parse.there_eq_ok ho.last hp
  exact hf o c w b ho ha hs hrest

end Derives
end TypedErrors
