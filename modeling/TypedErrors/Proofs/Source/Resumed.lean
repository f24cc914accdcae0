import TypedErrors.Proofs.Source.Headers
import TypedErrors.Proofs.Source.Local

/-! # Readings that go on alike

Two readings with the same lexeme ahead and the same text after it go on alike (`afterwards`), also where one of them
returns a changed value (`Resumes`). What a loop has read before stands in front of what it returns. -/

namespace TypedErrors

/-- The same lexeme is ahead, and the same text comes after it. -/
def Lookahead.Agrees (a a' : Lookahead) : Prop := a'.lexeme? = a.lexeme? ∧ a'.after.rest = a.after.rest

theorem Lookahead.exists_token {a a' : Lookahead} {t : Token} (h : a'.lexeme? = a.lexeme?) (ht : a.token? = some t) :
    ∃ t', a'.token? = some t' ∧ t'.lexeme = t.lexeme := by
  rw [lexeme?, lexeme?, ht] at h
  exact Option.map_eq_some_iff.mp h

/-- What is fetched depends on the text alone. -/
theorem Lookahead.fetch_agrees {site : Site} {last last' : Option Token} {c c' : Cursor} {b : Lookahead}
    (hrest : c'.rest = c.rest) (h : fetch site last c = .ok b) : ∃ b', fetch site last' c' = .ok b' ∧ b.Agrees b' := by
  have hskip : (Scan.skip site.accepts c').rest = (Scan.skip site.accepts c).rest := by
    rw [Scan.skip, Scan.skip, Scan.rest_advance, Scan.rest_advance, hrest]
  obtain ⟨hnil, hend, rfl⟩ | ⟨t, n, hread, rfl⟩ := fetch_eq_ok.mp h
  · exact ⟨_, fetch_eq_ok.mpr (.inl ⟨hskip.trans hnil, hend, rfl⟩), rfl, hrest⟩
  · refine ⟨_, fetch_eq_ok.mpr (.inr ⟨t, n, hskip ▸ hread, rfl⟩), ?_, ?_⟩
    · simp only [lexeme?, Scan.take, hskip]
      rfl
    · simp only [Scan.take, Scan.rest_advance, hskip]

/-- What is fetched may stand at the site. -/
theorem Lookahead.admits_of_fetch {site : Site} {last : Option Token} {c : Cursor} {b : Lookahead}
    (h : fetch site last c = .ok b) : site.admits b.head? = true := by
  obtain ⟨-, hend, rfl⟩ | ⟨t, n, hread, rfl⟩ := fetch_eq_ok.mp h
  · exact hend
  · exact List.contains_iff_mem.mpr (Scan.mem_of_terminal? hread)

theorem Lookahead.last_of_fetch {site : Site} {last : Option Token} {c : Cursor} {b : Lookahead}
    (h : fetch site last c = .ok b) : b.last = last := by
  obtain ⟨-, -, rfl⟩ | ⟨_, _, -, rfl⟩ := fetch_eq_ok.mp h <;> rfl

namespace Coupling

/-- Two readings that agree. -/
def afterwards : Coupling where
  rel := Lookahead.Agrees
  live _ := True
  lexeme h := h.1
  back _ _ _ := trivial
  step h ht hb _ := by
    obtain ⟨t', ht', -⟩ := Lookahead.exists_token h.1 ht
    obtain ⟨b', hb', hagrees⟩ := Lookahead.fetch_agrees h.2 hb
    exact ⟨t', b', ht', hb', hagrees⟩

/-- One reading. -/
def same : Coupling where
  rel a a' := a' = a
  live _ := True
  lexeme h := by rw [h]
  back _ _ _ := trivial
  step h ht hb _ := ⟨_, _, h ▸ ht, h ▸ hb, rfl⟩

/-- A parser ends at the same place with any fuel. -/
theorem ends_eq {α γ : Type} {u : α → γ} {x : Nat → Parse α} {a b c : Lookahead} {n m : Nat} {v w : α}
    (hx : ∀ {n m : Nat}, n ≤ m → same.Mirrors u (x n) (x m)) (h : x n a = .ok (v, b)) (h' : x m a = .ok (w, c)) :
    b = c := by
  have hle {n m : Nat} {v w : α} {b c : Lookahead} (hnm : n ≤ m) (h : x n a = .ok (v, b)) (h' : x m a = .ok (w, c)) :
      b = c := by
    obtain ⟨_, c', hc, rfl, -⟩ := (hx hnm).step rfl h trivial
    exact (Prod.mk.inj (Except.ok.inj (hc.symm.trans h'))).2
  obtain hnm | hmn := Nat.le_total n m
  · exact hle hnm h h'
  · exact (hle hmn h' h).symm

end Coupling

/-! ### Going on with a changed value -/

/-- On readings that agree, `y` does as `x` does, with results that are related by `Q`. -/
structure Resumes {α β : Type} (Q : α → β → Prop) (x : Parse α) (y : Parse β) : Prop where
  step {a a' b : Lookahead} {v : α} (hagrees : a.Agrees a') (h : x a = .ok (v, b)) :
    ∃ w b', y a' = .ok (w, b') ∧ b.Agrees b' ∧ Q v w

namespace Resumes

variable {α β γ δ : Type} {P : α → β → Prop} {Q : γ → δ → Prop} {x : Parse α} {y : Parse β} {f : α → Parse γ}
  {g : β → Parse δ} {v : α} {w : β} {site : Site}

theorem pure (h : P v w) : Resumes P (Pure.pure v) (Pure.pure w) := by
  refine ⟨fun {a a' b z} hagrees hz => ?_⟩
  obtain ⟨rfl, rfl⟩ := Prod.mk.inj (Except.ok.inj hz)
  exact ⟨w, a', rfl, hagrees, h⟩

theorem bind (hx : Resumes P x y) (hf : ∀ v w, P v w → Resumes Q (f v) (g w)) : Resumes Q (x >>= f) (y >>= g) := by
  refine ⟨fun {a a' b z} hagrees hz => ?_⟩
  obtain ⟨v, c, hxv, hfv⟩ := Parse.bind_eq_ok.mp hz
  obtain ⟨w, c', hyw, hagrees, hP⟩ := hx.step hagrees hxv
  obtain ⟨z', b', hgw, hagrees, hQ⟩ := (hf v w hP).step hagrees hfv
  exact ⟨z', b', Parse.bind_eq_ok.mpr ⟨w, c', hyw, hgw⟩, hagrees, hQ⟩

theorem of_mirrors {u : α → γ} {y : Parse α} (h : Coupling.afterwards.Mirrors u x y) :
    Resumes (fun v w => u w = u v) x y :=
  ⟨fun hagrees hx => h.step hagrees hx trivial⟩

/-- The rule for a part without places. -/
theorem bind_same {x y : Parse α} {g : α → Parse δ} (hx : Coupling.afterwards.Mirrors id x y)
    (hf : ∀ v, Resumes Q (f v) (g v)) : Resumes Q (x >>= f) (y >>= g) :=
  (of_mirrors hx).bind fun v w hw => by
    obtain rfl : w = v := hw
    exact hf w

theorem bind_peek {f : Option Terminal → Parse γ} {g : Option Terminal → Parse δ} (hf : ∀ o, Resumes Q (f o) (g o)) :
    Resumes Q (Parse.peek >>= f) (Parse.peek >>= g) :=
  bind_same .peek hf

theorem bind_check {f : Unit → Parse γ} {g : Unit → Parse δ} (hf : Resumes Q (f ()) (g ())) :
    Resumes Q (Parse.check site >>= f) (Parse.check site >>= g) :=
  bind_same .check fun _ => hf

theorem bind_there {f : Position → Parse γ} {g : Position → Parse δ} (hf : ∀ p q, Resumes Q (f p) (g q)) :
    Resumes Q (Parse.there >>= f) (Parse.there >>= g) :=
  (of_mirrors .there).bind fun p q _ => hf p q

theorem bind_shift {f : Token → Parse γ} {g : Token → Parse δ}
    (hf : ∀ t t' : Token, t'.lexeme = t.lexeme → Resumes Q (f t) (g t')) :
    Resumes Q (Parse.shift site >>= f) (Parse.shift site >>= g) :=
  (of_mirrors .shift).bind hf

end Resumes

/-! ### What a loop has read before -/

namespace Parse

variable {α β : Type} {file : String} {a b : Lookahead}

theorem bind_of_ok {x : Parse α} {f : α → Parse β} {v : α} (h : x a = .ok (v, b)) : (x >>= f) a = f v b := by
  show (x a >>= fun p => f p.1 p.2) = _
  rw [h]
  rfl

theorem bind_check_eq_ok {site : Site} {f : Unit → Parse α} {v : α} :
    (check site >>= f) a = .ok (v, b) ↔ site.admits a.head? = true ∧ f () a = .ok (v, b) := by
  constructor
  · intro h
    obtain ⟨_, c, hc, hf⟩ := bind_eq_ok.mp h
    obtain ⟨hadmits, rfl⟩ := check_eq_ok.mp hc
    exact ⟨hadmits, hf⟩
  · rintro ⟨hadmits, hf⟩
    exact bind_eq_ok.mpr ⟨(), a, check_eq_ok.mpr ⟨hadmits, rfl⟩, hf⟩

theorem bind_peek_eq (f : Option Terminal → Parse α) : (peek >>= f) a = f a.head? a := rfl

theorem outer_acc : ∀ {n : Nat} {attrs : List RawAttribute} {docs : List String}
    {p : List RawAttribute × List String} {a b : Lookahead}, outer file n attrs docs a = .ok (p, b) →
      ∃ q : List RawAttribute × List String, p = (attrs.reverse ++ q.1, docs.reverse ++ q.2) ∧
        ∀ attrs' docs', outer file n attrs' docs' a = .ok ((attrs'.reverse ++ q.1, docs'.reverse ++ q.2), b)
  | 0, _, _, _, _, _, h => by cases h
  | n + 1, attrs, docs, p, a, b, h => by
    obtain ⟨o, c, ho, h⟩ := bind_eq_ok.mp h
    have hrun {attrs docs} {y : List RawAttribute × List String} (h : _ = Except.ok (y, b)) :
        outer file (n + 1) attrs docs a = .ok (y, b) := bind_eq_ok.mpr ⟨o, c, ho, h⟩
    split at h
    · obtain ⟨r, d, hr, h⟩ := bind_eq_ok.mp h
      obtain ⟨q, rfl, hq⟩ := outer_acc h
      refine ⟨(r :: q.1, q.2), by simp, fun attrs' docs' => hrun (bind_eq_ok.mpr ⟨r, d, hr, ?_⟩)⟩
      rw [hq]
      simp
    · obtain ⟨t, d, ht, h⟩ := bind_eq_ok.mp h
      obtain ⟨q, rfl, hq⟩ := outer_acc h
      refine ⟨(q.1, docText t :: q.2), by simp, fun attrs' docs' => hrun (bind_eq_ok.mpr ⟨t, d, ht, ?_⟩)⟩
      rw [hq]
      simp
    · obtain ⟨rfl, rfl⟩ := Prod.mk.inj (Except.ok.inj h)
      refine ⟨([], []), by simp, fun attrs' docs' => hrun ?_⟩
      split
      · contradiction
      · contradiction
      · rw [List.append_nil, List.append_nil]
        rfl

section

variable {item : Parse α} {closer : Terminal} {items next : Site}

/-- What comes after an item of a list. -/
def commaNext (item : Parse α) (closer : Terminal) (items next : Site) (n : Nat) (acc : List α) (x : α) :
    Parse (List α) := do
  check next
  match ← peek with
  | some .comma =>
    let _ ← shift items
    commaList item closer items next n (x :: acc)
  | _ => return (x :: acc).reverse

theorem commaList_eq_ok {n : Nat} {acc xs : List α} (ha : a.head? ≠ some closer) :
    commaList item closer items next (n + 1) acc a = .ok (xs, b) ↔
      ∃ x c, item a = .ok (x, c) ∧ commaNext item closer items next n acc x c = .ok (xs, b) := by
  have hpeek : commaList item closer items next (n + 1) acc a =
      (item >>= commaNext item closer items next n acc) a := by
    show (if a.head? = some closer then pure acc.reverse else _ : Parse (List α)) a = _
    rw [if_neg ha]
    rfl
  rw [hpeek, bind_eq_ok]

theorem commaNext_comma {n : Nat} {acc xs : List α} {x : α} {t : Token} {c : Lookahead}
    (hcomma : a.head? = some .comma) (ht : shift items a = .ok (t, b)) :
    commaNext item closer items next n acc x a = .ok (xs, c) ↔
      next.admits (some .comma) = true ∧ commaList item closer items next n (x :: acc) b = .ok (xs, c) := by
  have hpeek : (do
      match ← peek with
      | some .comma =>
        let _ ← shift items
        commaList item closer items next n (x :: acc)
      | _ => return (x :: acc).reverse : Parse (List α)) a = commaList item closer items next n (x :: acc) b := by
    show (match a.head? with | some .comma => _ | _ => _ : Parse (List α)) a = _
    rw [hcomma]
    exact bind_of_ok ht
  rw [← hpeek, ← hcomma]
  exact bind_check_eq_ok

/-- The rest of a list does not depend on what is read before. -/
def AccFree (x : List α → Parse (List α)) : Prop :=
  ∀ (acc xs : List α) (a b : Lookahead), x acc a = .ok (xs, b) →
    ∃ ys, xs = acc.reverse ++ ys ∧ ∀ acc', x acc' a = .ok (acc'.reverse ++ ys, b)

theorem accFree_commaNext {n : Nat} (hlist : AccFree (commaList item closer items next n)) {acc xs : List α} {x : α}
    {a b : Lookahead} (h : commaNext item closer items next n acc x a = .ok (xs, b)) :
    ∃ ys, xs = acc.reverse ++ x :: ys ∧
      ∀ x' acc', commaNext item closer items next n acc' x' a = .ok (acc'.reverse ++ x' :: ys, b) := by
  obtain ⟨_, c, hc, h⟩ := bind_eq_ok.mp h
  obtain ⟨o, d, ho, h⟩ := bind_eq_ok.mp h
  have hrun {acc} {x : α} {y : List α} (h : _ = Except.ok (y, b)) :
      commaNext item closer items next n acc x a = .ok (y, b) :=
    bind_eq_ok.mpr ⟨_, c, hc, bind_eq_ok.mpr ⟨o, d, ho, h⟩⟩
  split at h
  · obtain ⟨t, e, ht, h⟩ := bind_eq_ok.mp h
    obtain ⟨ys, rfl, hys⟩ := hlist _ _ _ _ h
    refine ⟨ys, by simp, fun x' acc' => hrun (bind_eq_ok.mpr ⟨t, e, ht, ?_⟩)⟩
    rw [hys, List.reverse_cons, List.append_assoc, List.singleton_append]
  · obtain ⟨rfl, rfl⟩ := Prod.mk.inj (Except.ok.inj h)
    refine ⟨[], by simp, fun x' acc' => hrun ?_⟩
    split
    · contradiction
    · rw [← List.reverse_cons]
      rfl

theorem accFree_commaList : ∀ n : Nat, AccFree (commaList item closer items next n)
  | 0, _, _, _, _, h => by cases h
  | n + 1, acc, xs, a, b, h => by
    by_cases ha : a.head? = some closer
    · have hdone (acc : List α) : commaList item closer items next (n + 1) acc a = .ok (acc.reverse, a) := by
        show (if a.head? = some closer then pure acc.reverse else _ : Parse (List α)) a = _
        rw [if_pos ha]
        rfl
      obtain ⟨rfl, rfl⟩ := Prod.mk.inj (Except.ok.inj ((hdone acc).symm.trans h))
      exact ⟨[], by simp, fun acc' => by rw [hdone, List.append_nil]⟩
    · obtain ⟨x, c, hx, hrest⟩ := (commaList_eq_ok ha).mp h
      obtain ⟨ys, rfl, hys⟩ := accFree_commaNext (accFree_commaList n) hrest
      exact ⟨x :: ys, rfl, fun acc' => (commaList_eq_ok ha).mpr ⟨x, c, hx, hys x acc'⟩⟩

end

theorem peek_bind {β : Type} {f : Option Terminal → Parse β} : (peek >>= f) a = f a.head? a := rfl

theorem items_of_none {n : Nat} {is : List Import} {ds : List Declaration} (ha : a.head? = none) :
    Parse.items file (n + 1) is ds a = .ok (⟨file, is.reverse, ds.reverse⟩, a) := by
  rw [Parse.items, peek_bind, ha]
  rfl

theorem items_of_import {n : Nat} {is : List Import} {ds : List Declaration} (ha : a.head? = some .useWord) :
    Parse.items file (n + 1) is ds a = (import_ file n >>= fun i => Parse.items file n (i :: is) ds) a := by
  rw [Parse.items, peek_bind, ha]

theorem items_of_declaration {n : Nat} {is : List Import} {ds : List Declaration} (ha : a.head? ≠ some .useWord)
    (hne : a.head? ≠ none) :
    Parse.items file (n + 1) is ds a = (declaration file n >>= fun d => Parse.items file n is (d :: ds)) a := by
  rw [Parse.items, peek_bind]
  generalize a.head? = o at ha hne
  cases o with
  | none => exact absurd rfl hne
  | some k => cases k <;> first | rfl | exact absurd rfl ha

theorem items_acc : ∀ {n : Nat} {is : List Import} {ds : List Declaration} {f : SourceFile} {a b : Lookahead},
    Parse.items file n is ds a = .ok (f, b) →
      ∃ is' ds', f = ⟨file, is.reverse ++ is', ds.reverse ++ ds'⟩ ∧
        ∀ js es, Parse.items file n js es a = .ok (⟨file, js.reverse ++ is', es.reverse ++ ds'⟩, b)
  | 0, _, _, _, _, _, h => by cases h
  | n + 1, is, ds, f, a, b, h => by
    by_cases hne : a.head? = none
    · rw [items_of_none hne] at h
      obtain ⟨rfl, rfl⟩ := Prod.mk.inj (Except.ok.inj h)
      exact ⟨[], [], by simp, fun js es => by rw [items_of_none hne, List.append_nil, List.append_nil]⟩
    · by_cases ha : a.head? = some .useWord
      · rw [items_of_import ha] at h
        obtain ⟨i, d, hi, h⟩ := bind_eq_ok.mp h
        obtain ⟨is', ds', rfl, hq⟩ := items_acc h
        refine ⟨i :: is', ds', by simp, fun js es => ?_⟩
        rw [items_of_import ha]
        refine bind_eq_ok.mpr ⟨i, d, hi, ?_⟩
        rw [hq, List.reverse_cons, List.append_assoc, List.singleton_append]
      · rw [items_of_declaration ha hne] at h
        obtain ⟨e, d, he, h⟩ := bind_eq_ok.mp h
        obtain ⟨is', ds', rfl, hq⟩ := items_acc h
        refine ⟨is', e :: ds', by simp, fun js es => ?_⟩
        rw [items_of_declaration ha hne]
        refine bind_eq_ok.mpr ⟨e, d, he, ?_⟩
        rw [hq, List.reverse_cons, List.append_assoc, List.singleton_append]

end Parse
end TypedErrors
