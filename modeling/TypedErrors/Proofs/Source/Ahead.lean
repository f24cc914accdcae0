import TypedErrors.Proofs.Source.Tokens

/-! # Parsers and the lexemes ahead

`Yields x ls ms Q`: with the lexemes `ls` ahead the parser reads up to `ms`, and `Q` holds of what it returns.
There is one rule for each step a parser can make; a step that takes a token asks that what is then ahead may stand
at its site (`Follows`). -/

namespace TypedErrors

variable {site s : Site} {l : Lexeme} {ls ms ns : List Lexeme} {t : Terminal}

def Token.lexeme (t : Token) : Lexeme := ⟨t.terminal, t.text⟩

/-! ### What may follow -/

/-- The first of the lexemes is read at the site as what it is. -/
def Follows (site : Site) : List Lexeme → Prop
  | [] => site.mayEnd = true
  | l :: _ => Scan.Reads site.accepts l

/-- The first of the lexemes is of the site, and no word if it is a name. -/
def Fits (site : Site) : List Lexeme → Prop
  | [] => site.mayEnd = true
  | l :: _ => l.terminal ∈ site.accepts ∧ (l.terminal = .name → Identifier l.text)

/-- What fits the first site may follow at the second one. -/
def Site.Within (s site : Site) : Prop :=
  s.accepts ⊆ site.accepts ∧ (.dot ∈ s.accepts → .ellipsis ∉ site.accepts) ∧ (s.mayEnd = true → site.mayEnd = true)

instance : Decidable (s.Within site) :=
  inferInstanceAs (Decidable ((∀ t ∈ s.accepts, t ∈ site.accepts) ∧
    (.dot ∈ s.accepts → .ellipsis ∉ site.accepts) ∧ (s.mayEnd = true → site.mayEnd = true)))

theorem Identifier.ne_word {w : String} (hw : Identifier w) (t : Terminal) : t.word? ≠ some w := by
  intro h
  refine hw.notReserved ?_
  cases t <;> first | (obtain rfl := Option.some.inj h; decide) | cases h

namespace Fits

theorem follows (h : Fits s ls) (hs : s.Within site) : Follows site ls := by
  obtain ⟨haccepts, hdot, hend⟩ := hs
  cases ls with
  | nil => exact hend h
  | cons l ls => exact ⟨haccepts h.1, fun hname w _ => (h.2 hname).ne_word w, fun hl => hdot (hl ▸ h.1)⟩

theorem mono (h : Fits s ls) (hs : s.Within site) : Fits site ls := by
  cases ls with
  | nil => exact hs.2.2 h
  | cons l ls => exact ⟨hs.1 h.1, h.2⟩

theorem head_ne (h : Fits s ls) (ht : t ∉ s.accepts) : ls.head?.map Lexeme.terminal ≠ some t := by
  cases ls with
  | nil => exact nofun
  | cons l ls =>
    intro heq
    obtain rfl := Option.some.inj heq
    exact ht h.1

theorem head_ne_none (h : Fits s ls) (hend : s.mayEnd = false) : ls.head?.map Lexeme.terminal ≠ none := by
  cases ls with
  | nil =>
    rw [show s.mayEnd = true from h] at hend
    cases hend
  | cons l ls => exact nofun

theorem lexeme (ht : t ∈ site.accepts) (hname : t ≠ .name) : Fits site (t.lexeme :: ls) :=
  ⟨ht, fun h => absurd h hname⟩

theorem name {w : String} (hw : Identifier w) (h : .name ∈ site.accepts) : Fits site (.name w :: ls) :=
  ⟨h, fun _ => hw⟩

end Fits

/-! ### The lexemes ahead -/

/-- The first lexeme is the token ahead, the others are spelled by what follows it, and none has the prefix of a
string. -/
inductive Ahead : List Lexeme → Lookahead → Prop
  | nil {after : Cursor} {last : Option Token} : Ahead [] ⟨none, after, last⟩
  | cons {t : Token} {after : Cursor} {last : Option Token} {rest : List Lexeme} (h : Spelled rest after.rest)
      (hraw : ∀ l ∈ rest, ¬ l.IsRaw) : Ahead (t.lexeme :: rest) ⟨some t, after, last⟩

theorem Lookahead.fetch_of_spelled {c : Cursor} (h : Spelled ls c.rest) (hraw : ∀ l ∈ ls, ¬ l.IsRaw)
    (hfollows : Follows site ls) (last : Option Token) : ∃ a, fetch site last c = .ok a ∧ Ahead ls a := by
  cases ls with
  | nil =>
    rw [fetch, Scan.next_of_gap h]
    exact ⟨_, if_pos hfollows, .nil⟩
  | cons l ls =>
    obtain ⟨hl, hraw⟩ := List.forall_mem_cons.mp hraw
    obtain ⟨t, after, hnext, hterminal, htext, hrest⟩ := Scan.next_of_spelled h hfollows hl
    rw [fetch, hnext]
    refine ⟨_, rfl, ?_⟩
    rw [show l = t.lexeme by rw [Token.lexeme, hterminal, htext]]
    exact .cons hrest hraw

/-! ### Parsers -/

variable {α β : Type} {x : Parse α} {f : α → Parse β} {P Q : α → Prop} {R : β → Prop} {v : α}

/-- With `ls` ahead, `x` returns a value of which `Q` holds, and then `ms` is ahead. -/
def Yields (x : Parse α) (ls ms : List Lexeme) (Q : α → Prop) : Prop :=
  ∀ a, Ahead ls a → ∃ v b, x a = .ok (v, b) ∧ Q v ∧ Ahead ms b

namespace Yields

theorem pure (h : Q v) : Yields (Pure.pure v) ls ls Q := fun a ha => ⟨v, a, rfl, h, ha⟩

theorem bind (hx : Yields x ls ms P) (hf : ∀ v, P v → Yields (f v) ms ns R) : Yields (x >>= f) ls ns R := by
  intro a ha
  obtain ⟨v, b, hxv, hv, hb⟩ := hx a ha
  obtain ⟨w, c, hfw, hw, hc⟩ := hf v hv b hb
  exact ⟨w, c, Parse.bind_eq_ok.mpr ⟨v, b, hxv, hfw⟩, hw, hc⟩

theorem mono (hx : Yields x ls ms P) (h : ∀ v, P v → Q v) : Yields x ls ms Q := by
  intro a ha
  obtain ⟨v, b, hxv, hv, hb⟩ := hx a ha
  exact ⟨v, b, hxv, h v hv, hb⟩

/-- The rule for a step that takes nothing. -/
theorem bind_still (hx : ∀ a, Ahead ls a → ∃ v, x a = .ok (v, a) ∧ P v)
    (hf : ∀ v, P v → Yields (f v) ls ms R) : Yields (x >>= f) ls ms R := by
  have hstep : Yields x ls ls P := fun a ha => by
    obtain ⟨v, hxv, hv⟩ := hx a ha
    exact ⟨v, a, hxv, hv, ha⟩
  exact hstep.bind hf

theorem bind_peek {f : Option Terminal → Parse β} (hf : Yields (f (ls.head?.map Lexeme.terminal)) ls ms R) :
    Yields (Parse.peek >>= f) ls ms R := by
  refine bind_still (P := (· = ls.head?.map Lexeme.terminal)) (fun a ha => ⟨_, rfl, ?_⟩) fun v hv => hv ▸ hf
  cases ha <;> rfl

theorem bind_here {f : Position → Parse β} (hf : ∀ p, Yields (f p) ls ms R) : Yields (Parse.here >>= f) ls ms R := by
  refine bind_still (P := fun _ => True) (fun a ha => ?_) fun p _ => hf p
  cases ha <;> exact ⟨_, rfl, trivial⟩

theorem bind_there {f : Position → Parse β} (hf : ∀ p, Yields (f p) ls ms R) :
    Yields (Parse.there >>= f) ls ms R := by
  refine bind_still (P := fun _ => True) (fun a _ => ?_) fun p _ => hf p
  obtain ⟨token?, after, last⟩ := a
  cases last <;> exact ⟨_, rfl, trivial⟩

theorem bind_check {f : Unit → Parse β} (hfollows : Follows site ls) (hf : Yields (f ()) ls ms R) :
    Yields (Parse.check site >>= f) ls ms R := by
  refine bind_still (P := fun _ => True) (fun a ha => ⟨(), ?_, trivial⟩) fun _ _ => hf
  cases ha with
  | nil =>
    have hend : site.mayEnd = true := hfollows
    show (if site.mayEnd = true then Pure.pure () else throw _ : Parse Unit) _ = _
    rw [if_pos hend]
    rfl
  | @cons t after last _ h hraw =>
    have haccepts : t.terminal ∈ site.accepts := hfollows.accepted
    show (if site.accepts.contains t.terminal = true then Pure.pure () else throw _ : Parse Unit) _ = _
    rw [if_pos (List.contains_iff_mem.mpr haccepts)]
    rfl

theorem bind_shift {f : Token → Parse β} (hfollows : Follows site ls)
    (hf : ∀ t, t.lexeme = l → Yields (f t) ls ms R) : Yields (Parse.shift site >>= f) (l :: ls) ms R := by
  have hstep : Yields (Parse.shift site) (l :: ls) ls fun t => t.lexeme = l := by
    intro a ha
    cases ha with
    | @cons t after last _ h hraw =>
      obtain ⟨b, hfetch, hb⟩ := Lookahead.fetch_of_spelled h hraw hfollows (some t)
      exact ⟨t, b, Parse.shift_eq_ok.mpr ⟨rfl, hfetch⟩, rfl, hb⟩
  exact hstep.bind hf

end Yields
end TypedErrors
