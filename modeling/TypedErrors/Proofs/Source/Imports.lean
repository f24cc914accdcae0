import Mathlib.Data.List.TakeWhile
import TypedErrors.Proofs.Except
import TypedErrors.Source.Parser

/-! # Reading imports

What the steps of a parser do, and what an import is read from: its path starts with a name, which is made of the
characters of names (`isNamePart_of_import`). -/

namespace TypedErrors

variable {site : Site} {a b : Lookahead} {n : Nat} {cs : List Char}

namespace Scan

theorem countWhile_eq (p : Char → Bool) (acc : Nat) (cs : List Char) :
    countWhile p acc cs = acc + (cs.takeWhile p).length := by
  induction cs generalizing acc with
  | nil => rfl
  | cons c cs ih =>
    rw [countWhile, List.takeWhile_cons]
    split_ifs
    · rw [ih, List.length_cons]
      omega
    · rfl

theorem isNamePart_of_isNameStart {c : Char} (h : isNameStart c = true) : isNamePart c = true := by
  rw [isNameStart, Bool.or_eq_true] at h
  rw [isNamePart, Bool.or_eq_true]
  exact h.imp_left fun hc => by rw [Char.isAlphanum, hc, Bool.true_or]

theorem isNamePart_of_name? (h : name? cs = some n) : ∀ c ∈ cs.take n, isNamePart c = true := by
  cases cs with
  | nil => cases h
  | cons c cs =>
    rw [name?] at h
    split_ifs at h with hstart
    obtain rfl := Option.some.inj h
    rw [countWhile_eq, Nat.add_comm, List.take_succ_cons]
    refine List.forall_mem_cons.mpr ⟨isNamePart_of_isNameStart hstart, fun d hd => ?_⟩
    rw [← List.prefix_iff_eq_take.mp (List.takeWhile_prefix _)] at hd
    exact List.mem_takeWhile_imp hd

/-- Where only a name is accepted, a name is read. -/
theorem name?_of_terminal? {t : Terminal} (h : terminal? [.name] cs = some (t, n)) : name? cs = some n := by
  have hfixed : ∀ spelling? : Terminal → Option String, fixed? spelling? cs [] = none := fun _ => rfl
  cases hname : name? cs with
  | none => simp [terminal?, hname, Terminal.symbols, fixed?] at h
  | some m =>
    simp [terminal?, hname] at h
    rw [h.2]

end Scan

/-! ### Reading -/

theorem Lookahead.fetch_name {last : Option Token} {c : Cursor} (h : fetch .name last c = .ok a) :
    ∃ t, a.token? = some t ∧ ∀ x ∈ t.text.toList, Scan.isNamePart x = true := by
  rw [fetch] at h
  split at h
  · next t after hnext =>
    obtain rfl := Except.ok.inj h
    refine ⟨t, rfl, ?_⟩
    simp only [Scan.next] at hnext
    split at hnext
    · cases hnext
    · split at hnext
      · next u m hterminal =>
        obtain ⟨rfl, -⟩ := Scan.Outcome.token.inj hnext
        simp only [Scan.take, String.toList_ofList]
        exact Scan.isNamePart_of_name? (Scan.name?_of_terminal? hterminal)
      · split at hnext <;> cases hnext
  · split_ifs at h
    · next hend => cases hend
  · cases h
  · cases h

namespace Parse

variable {α β : Type} {x : Parse α} {f : α → Parse β} {y : β}

theorem bind_eq_ok : (x >>= f) a = .ok (y, b) ↔ ∃ z c, x a = .ok (z, c) ∧ f z c = .ok (y, b) := by
  rw [show (x >>= f) a = (x a >>= fun p => f p.1 p.2) from rfl, TypedErrors.bind_eq_ok]
  exact ⟨fun ⟨p, hx, hf⟩ => ⟨p.1, p.2, hx, hf⟩, fun ⟨z, c, hx, hf⟩ => ⟨(z, c), hx, hf⟩⟩

theorem shift_eq_ok {t : Token} : shift site a = .ok (t, b) ↔
    a.token? = some t ∧ Lookahead.fetch site (some t) a.after = .ok b := by
  obtain ⟨token?, after, last⟩ := a
  cases token? with
  | none =>
    constructor
    · intro h
      cases h
    · rintro ⟨⟨⟩, -⟩
  | some u =>
    have hrun : shift site ⟨some u, after, last⟩ =
        (Lookahead.fetch site (some u) after).bind fun c => .ok (u, c) := by
      show (shift site).run ⟨some u, after, last⟩ = _
      cases hfetch : Lookahead.fetch site (some u) after <;> simp [shift, hfetch, Except.bind]
    rw [hrun]
    cases hfetch : Lookahead.fetch site (some u) after with
    | error e =>
      constructor
      · intro h
        cases h
      · rintro ⟨⟨⟩, h⟩
        rw [hfetch] at h
        cases h
    | ok c =>
      simp only [Except.bind, Except.ok.injEq, Prod.mk.injEq, Option.some.injEq]
      constructor
      · rintro ⟨rfl, rfl⟩
        exact ⟨rfl, hfetch⟩
      · rintro ⟨rfl, h⟩
        exact ⟨rfl, Except.ok.inj (hfetch.symm.trans h)⟩

theorem peek_still {t? : Option Terminal} (h : peek a = .ok (t?, b)) : b = a := (Prod.mk.inj (Except.ok.inj h)).2.symm

theorem here_eq_ok {t : Token} {p : Position} (ha : a.token? = some t) (h : here a = .ok (p, b)) : p = t.start := by
  obtain ⟨token?, after, last⟩ := a
  obtain rfl := ha
  exact (Prod.mk.inj (Except.ok.inj h)).1.symm

theorem here_still {p : Position} (h : here a = .ok (p, b)) : b = a := by
  obtain ⟨token?, after, last⟩ := a
  cases token? <;> exact (Prod.mk.inj (Except.ok.inj h)).2.symm

theorem there_still {p : Position} (h : there a = .ok (p, b)) : b = a := by
  obtain ⟨token?, after, last⟩ := a
  cases last <;> exact (Prod.mk.inj (Except.ok.inj h)).2.symm

theorem check_still {u : Unit} (h : check site a = .ok (u, b)) : b = a := by
  obtain ⟨token?, after, last⟩ := a
  cases token? with
  | none =>
    change (if site.mayEnd = true then pure () else throw _ : Parse Unit) _ = _ at h
    split_ifs at h
    · exact (Prod.mk.inj (Except.ok.inj h)).2.symm
    · cases h
  | some t =>
    change (if site.accepts.contains t.terminal = true then pure () else throw _ : Parse Unit) _ = _ at h
    split_ifs at h
    · exact (Prod.mk.inj (Except.ok.inj h)).2.symm
    · cases h

theorem head_path {p : DottedName} {t : Token} (ha : a.token? = some t) (h : path n a = .ok (p, b)) :
    p.head = t.text := by
  obtain ⟨t', c, hshift, h⟩ := bind_eq_ok.mp h
  obtain ⟨ht', -⟩ := shift_eq_ok.mp hshift
  obtain rfl := Option.some.inj (ha.symm.trans ht')
  obtain ⟨parts, d, -, h⟩ := bind_eq_ok.mp h
  obtain ⟨rfl, -⟩ := Prod.mk.inj (Except.ok.inj h)
  rfl

/-- The path of an import starts with a name. -/
theorem isNamePart_of_import {file : String} {i : Import} (h : import_ file n a = .ok (i, b)) :
    ∀ x ∈ i.path.head.toList, Scan.isNamePart x = true := by
  obtain ⟨start, c₁, -, h⟩ := bind_eq_ok.mp h
  obtain ⟨_, c₂, hshift, h⟩ := bind_eq_ok.mp h
  obtain ⟨-, hfetch⟩ := shift_eq_ok.mp hshift
  obtain ⟨t, ht, hname⟩ := Lookahead.fetch_name hfetch
  obtain ⟨p, c₃, hpath, h⟩ := bind_eq_ok.mp h
  obtain ⟨_, c₄, -, h⟩ := bind_eq_ok.mp h
  obtain ⟨ahead, c₅, -, h⟩ := bind_eq_ok.mp h
  have hend : ∀ {alias? : Option String} {c}, (do
      let _ ← shift .items
      return { path := p, alias?, span := start.spanTo file (← there) } : Parse Import) c = .ok (i, b) →
        ∀ x ∈ i.path.head.toList, Scan.isNamePart x = true := by
    intro alias? c h
    obtain ⟨_, c₆, -, h⟩ := bind_eq_ok.mp h
    obtain ⟨_, c₇, -, h⟩ := bind_eq_ok.mp h
    obtain ⟨rfl, -⟩ := Prod.mk.inj (Except.ok.inj h)
    rw [head_path ht hpath]
    exact hname
  split at h
  · obtain ⟨_, c₆, -, h⟩ := bind_eq_ok.mp h
    obtain ⟨u, c₇, -, h⟩ := bind_eq_ok.mp h
    exact hend h
  · exact hend h

end Parse
end TypedErrors
