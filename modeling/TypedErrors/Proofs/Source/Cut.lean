import TypedErrors.Proofs.Source.Resumed

/-! # Texts that part

Two texts that are the same up to a cut are read side by side up to the last token before it (`Cut.coupling`): what that
token ends with stops every token before the cut. -/

namespace TypedErrors

/-! ### Places -/

namespace Position

variable {p : Position} {x y u v : List Char}

theorem le_past (p : Position) (x : List Char) :
    p.line ≤ (p.past x).line ∧ ((p.past x).line = p.line → (p.past x).column = p.column + x.length) := by
  induction x generalizing p with
  | nil => exact ⟨Nat.le_refl _, fun _ => rfl⟩
  | cons c x ih =>
    obtain ⟨hline, hcolumn⟩ := ih (p.after c)
    have hpast : p.past (c :: x) = (p.after c).past x := rfl
    rw [hpast]
    by_cases hc : c = '\n'
    · rw [after, if_pos hc] at hline hcolumn ⊢
      simp only at hline
      exact ⟨by omega, fun h => by omega⟩
    · rw [after, if_neg hc] at hline hcolumn ⊢
      refine ⟨hline, fun h => ?_⟩
      rw [hcolumn h, List.length_cons]
      simp only
      omega

/-- Two fronts of a text that end at the same place are the same. -/
theorem past_injective (h : x ++ u = y ++ v) (hpast : p.past x = p.past y) : x = y := by
  have hnil {x z : List Char} (h : p.past (x ++ z) = p.past x) : z = [] := by
    rw [past_append] at h
    obtain ⟨-, hcolumn⟩ := le_past (p.past x) z
    have hlen := hcolumn (by rw [h])
    rw [h] at hlen
    exact List.eq_nil_of_length_eq_zero (by omega)
  obtain ⟨z, rfl, -⟩ | ⟨z, rfl, -⟩ := List.append_eq_append_iff.mp h
  · rw [hnil hpast.symm, List.append_nil]
  · rw [hnil hpast, List.append_nil]

end Position

/-! ### Where a token stands -/

namespace Lookahead

variable {source q r : List Char} {site : Site} {last : Option Token} {c : Cursor} {a b : Lookahead} {t : Token}

/-- The cursor stands in the source behind the token ahead, which is read there. -/
structure Stands (source : List Char) (a : Lookahead) : Prop where
  after : ∃ q, a.after.At source q
  stop : ∀ t, a.token? = some t → t.stop = a.after.position
  read : ∀ t, a.token? = some t → ∃ accepts,
    Scan.terminal? accepts (t.text.toList ++ a.after.rest) = some (t.terminal, t.text.toList.length)

theorem stands_of_fetch (hc : c.At source q) (h : fetch site last c = .ok a) : a.Stands source where
  after := by
    obtain ⟨-, -, rfl⟩ | ⟨_, _, -, rfl⟩ := fetch_eq_ok.mp h
    · exact ⟨q, hc⟩
    · exact ⟨_, (hc.advance _).advance _⟩
  stop t ht := by
    obtain ⟨-, -, rfl⟩ | ⟨_, _, -, rfl⟩ := fetch_eq_ok.mp h
    · cases ht
    · obtain rfl := Option.some.inj ht
      rfl
  read t ht := by
    obtain ⟨_, -, -, hread⟩ := gap_of_fetch h ht
    exact ⟨_, hread⟩

/-- The text from the token ahead on. -/
def front (a : Lookahead) : List Char := (a.token?.elim [] fun t => t.text.toList) ++ a.after.rest

theorem front_of_token (h : a.token? = some t) : a.front = t.text.toList ++ a.after.rest := by rw [front, h]; rfl

theorem front_suffix (h : fetch site last c = .ok a) : a.front <:+ c.rest := by
  cases ht : a.token? with
  | none =>
    obtain ⟨-, -, rfl⟩ | ⟨_, _, -, rfl⟩ := fetch_eq_ok.mp h
    · exact List.suffix_rfl
    · cases ht
  | some t =>
    obtain ⟨gap, hrest, -⟩ := gap_of_fetch h ht
    rw [hrest, front_of_token ht]
    exact List.suffix_append gap _

end Lookahead

namespace Takes

variable {source : List Char} {a b : Lookahead} {t : Token} {ts : List Token}

theorem stands (h : Takes a ts b) (ha : a.Stands source) : b.Stands source := by
  induction h with
  | nil => exact ha
  | cons _ hb _ ih =>
    obtain ⟨q, hq⟩ := ha.after
    exact ih (Lookahead.stands_of_fetch hq hb)

theorem last_step (h : Takes a (t :: ts) b) : ∃ us c w site, Takes a us c ∧ c.token? = some w ∧
    Lookahead.fetch site (some w) c.after = .ok b := by
  induction ts generalizing a t with
  | nil =>
    obtain _ | ⟨ht, hb, h⟩ := h
    cases h
    exact ⟨[], a, t, _, .nil, ht, hb⟩
  | cons u us ih =>
    obtain _ | ⟨ht, hb, h⟩ := h
    obtain ⟨vs, c, w, site, hc, hw, hfetch⟩ := ih h
    exact ⟨t :: vs, c, w, site, .cons ht hb hc, hw, hfetch⟩

/-- The token before what is ahead was read in the source, up to where it stops. -/
theorem last_read (h : Takes a ts b) (ha : a.Stands source) (hlast : a.last = none) (ht : b.last = some t) :
    ∃ accepts q rest, source = q ++ rest ∧ t.stop = Position.past {} q ∧
      Scan.terminal? accepts (t.text.toList ++ rest) = some (t.terminal, t.text.toList.length) := by
  cases ts with
  | nil =>
    cases h
    rw [hlast] at ht
    cases ht
  | cons u us =>
    obtain ⟨us, c, w, site, hc, hw, hfetch⟩ := h.last_step
    obtain rfl := Option.some.inj ((Lookahead.last_of_fetch hfetch).symm.trans ht)
    have hstands := hc.stands ha
    obtain ⟨q, hq⟩ := hstands.after
    obtain ⟨accepts, hread⟩ := hstands.read w hw
    exact ⟨accepts, q, c.after.rest, hq.source, (hstands.stop w hw).trans hq.position, hread⟩

theorem front_suffix (h : Takes a (t :: ts) b) : b.front <:+ a.after.rest := by
  induction ts generalizing a t with
  | nil =>
    obtain _ | ⟨-, hb, h⟩ := h
    cases h
    exact Lookahead.front_suffix hb
  | cons u us ih =>
    obtain _ | ⟨-, hb, h⟩ := h
    refine (ih h).trans (.trans ?_ (Lookahead.front_suffix hb))
    rw [Lookahead.front]
    exact List.suffix_append _ _

/-- No token is taken on the way from a token to itself. -/
theorem apart (h : Takes a (t :: ts) a) (ha : a.Stands source) : False := by
  have ht := h.head
  obtain ⟨accepts, hread⟩ := ha.read t ht
  have hpos := Scan.pos_of_terminal? hread
  have hle := h.front_suffix.length_le
  rw [Lookahead.front_of_token ht, List.length_append] at hle
  omega

end Takes

/-! ### Cuts -/

/-- The same lexeme is ahead, and behind it the same text up to the cut. -/
def Lookahead.Twin (v w : List Char) (a a' : Lookahead) : Prop :=
  a'.lexeme? = a.lexeme? ∧ ∃ r, a.after.rest = r ++ v ∧ a'.after.rest = r ++ w

/-- The source is cut behind the last token before the goal. The token stops there, and a doc comment is at the end of
its line also where `w` comes after it. -/
structure Cut (source : List Char) (goal : Lookahead) (pre v w : List Char) : Prop where
  source : source = pre ++ v
  stop : ∀ t, goal.last = some t → t.stop = Position.past {} pre
  stops : ∀ t, goal.last = some t → Scan.Stops t.text.toList
  line : ∀ t, goal.last = some t → t.terminal = .doc → ∀ d ∈ w.head?, d = '\n'

namespace Cut

variable {source pre v w : List Char} {goal a a' b : Lookahead} {site : Site} {t : Token} {last : Option Token}
  {c c' : Cursor} {q r : List Char}

theorem rest_eq (K : Cut source goal pre v w) (ha : a.Stands source) (ht : a.token? = some t)
    (h : Lookahead.fetch site (some t) a.after = .ok goal) : a.after.rest = v := by
  obtain ⟨q, hq⟩ := ha.after
  have hstop : Position.past {} q = Position.past {} pre := by
    rw [← hq.position, ← ha.stop t ht]
    exact K.stop t (Lookahead.last_of_fetch h)
  have hsource : q ++ a.after.rest = pre ++ v := hq.source.symm.trans K.source
  obtain rfl := Position.past_injective hsource hstop
  exact List.append_cancel_left hsource

/-- A token before the cut is fetched in both texts. -/
theorem fetch (K : Cut source goal pre v w) (hc : c.At source q) (hrest : c.rest = r ++ v) (hrest' : c'.rest = r ++ w)
    (h : Lookahead.fetch site last c = .ok b) {ts : List Token} (hb : Takes b (t :: ts) goal) (last' : Option Token) :
    ∃ b', Lookahead.fetch site last' c' = .ok b' ∧ b.Twin v w b' := by
  have ht := hb.head
  obtain ⟨us, d, u, site', hd, hu, hgoal⟩ := hb.last_step
  have hlast := Lookahead.last_of_fetch hgoal
  have hv := K.rest_eq (hd.stands (Lookahead.stands_of_fetch hc h)) hu hgoal
  obtain ⟨r', hafter, hstops, hend⟩ : ∃ r', b.after.rest = r' ++ v ∧ Scan.Stops (t.text.toList ++ r') ∧
      (r' = [] → goal.last = some t) := by
    have hstops := K.stops u hlast
    cases hd with
    | nil =>
      obtain rfl := Option.some.inj (ht.symm.trans hu)
      exact ⟨[], hv, by rwa [List.append_nil], fun _ => hlast⟩
    | cons hs hstep hd =>
      obtain ⟨m, hm⟩ := Takes.front_suffix (.cons hs hstep hd)
      refine ⟨m ++ u.text.toList, ?_, ?_, fun hnil => ?_⟩
      · rw [← hm, Lookahead.front_of_token hu, hv, List.append_assoc]
      · obtain ⟨c, hc, hstop⟩ := hstops
        exact ⟨c, List.mem_append_right _ (List.mem_append_right _ hc), hstop⟩
      · exact absurd (List.append_eq_nil_iff.mp hnil).2 hstops.ne_nil
  obtain ⟨gap, hgap, -⟩ := Lookahead.gap_of_fetch h ht
  rw [hafter] at hgap
  have hr : r = gap ++ (t.text.toList ++ r') := by
    have hsplit : r ++ v = gap ++ (t.text.toList ++ r') ++ v := by
      rw [← hrest, hgap]
      simp only [List.append_assoc]
    exact List.append_cancel_right hsplit
  have hgap' : c'.rest = gap ++ (t.text.toList ++ (r' ++ w)) := by
    rw [hrest', hr]
    simp only [List.append_assoc]
  obtain ⟨b', t', hb', ht', hterminal, htext, hafter'⟩ := Lookahead.fetch_local h ht hafter hgap hstops
    (fun hdoc hnil => K.line t (hend hnil) hdoc) hgap' last'
  refine ⟨b', hb', ?_, r', hafter, hafter'⟩
  rw [Lookahead.lexeme?, Lookahead.lexeme?, ht, ht', Option.map_some, Option.map_some, Token.lexeme, Token.lexeme,
    hterminal, String.toList_inj.mp htext]

/-- The readings of two texts that part at the cut. -/
def coupling (K : Cut source goal pre v w) : Coupling where
  rel a a' := a.Stands source ∧ a.Twin v w a'
  live a := ∃ t ts, Takes a (t :: ts) goal
  lexeme h := h.2.1
  back ht hb hlive := by
    obtain ⟨u, us, h⟩ := hlive
    exact ⟨_, u :: us, .cons ht hb h⟩
  step h ht hb hlive := by
    obtain ⟨hstands, hlexeme, r, hrest, hrest'⟩ := h
    obtain ⟨u, us, hgoal⟩ := hlive
    obtain ⟨t', ht', -⟩ := Lookahead.exists_token hlexeme ht
    obtain ⟨q, hq⟩ := hstands.after
    obtain ⟨b', hb', htwin⟩ := K.fetch hq hrest hrest' hb hgoal (some t')
    exact ⟨t', b', ht', hb', Lookahead.stands_of_fetch hq hb, htwin⟩

/-- Where the goal is fetched in one text, `lands` is what is ahead in the other. -/
def landing (K : Cut source goal pre v w) (sites : Site → Prop) (lands : Lookahead → Prop)
    (admits : ∀ {a' : Lookahead} {site : Site}, lands a' → sites site → site.admits a'.head? = true)
    (hland : ∀ {site : Site} {last last' : Option Token} {c c' : Cursor}, c.rest = v → c'.rest = w → sites site →
      Lookahead.fetch site last c = .ok goal → ∃ b', Lookahead.fetch site last' c' = .ok b' ∧ lands b') : Landing where
  toCoupling := K.coupling
  goal := goal
  sites := sites
  lands := lands
  admits := admits
  near ht hb := ⟨_, [], .cons ht hb .nil⟩
  arrive h ht hb hsite := by
    obtain ⟨hstands, hlexeme, r, hrest, hrest'⟩ := h
    obtain ⟨t', ht', -⟩ := Lookahead.exists_token hlexeme ht
    have hv := K.rest_eq hstands ht hb
    obtain rfl : r = [] := List.append_left_eq_self.mp (hrest.symm.trans hv)
    obtain ⟨b', hb', hlands⟩ := hland hv hrest' hsite hb
    exact ⟨t', b', ht', hb', hlands⟩

end Cut
end TypedErrors
