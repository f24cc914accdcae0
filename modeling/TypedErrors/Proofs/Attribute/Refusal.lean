import TypedErrors.Proofs.Attribute.States
import TypedErrors.Proofs.Source.Floats

/-! # The token that rules a block out

A block that is refused is refused at the first token that no block goes on with after what stands before it; if every
token could stand where it does, the block ends too early (`parseAttribute_refused`). -/

namespace TypedErrors

open AttrParse

variable {t : AttrToken} {ts us : List AttrToken} {a : RawAttribute}

/-! ### Tokens that can be read -/

/-- The token has a place and a text of its terminal, and if that is one of an integer, the integer can be read. -/
structure AttrToken.Conforms (t : AttrToken) : Prop where
  placed : t.span.isSome = true
  spelled : t.terminal.Spells t.text.toList
  integer : t.terminal = .int → ∃ n, Numeral.readLiteral t.text = .ok n

theorem AttrToken.Conforms.not_unreadable (h : t.Conforms) (e : NumeralError) : ¬ Unreadable t e := by
  rintro (⟨ht, herror⟩ | ⟨ht, herror⟩)
  · obtain ⟨n, hn⟩ := h.integer ht
    rw [hn] at herror
    cases herror
  · have hfloat := h.spelled
    rw [ht] at hfloat
    obtain ⟨x, hx⟩ := exists_readFloat_of_floatText hfloat
    rw [hx] at herror
    cases herror

theorem parseAttribute_ne_abort (ha : ∀ t ∈ a.tokens, t.Conforms) (x : Abort) : parseAttribute a ≠ .error (.abort x) := by
  intro h
  obtain ⟨pre, t, rest, e, hts, -, hu, -⟩ := parseAttribute_abort_iff.mp h
  exact (ha t (by simp [hts])).not_unreadable e hu

/-- Tokens that can be read are a block just when they lead to a final state. -/
theorem exists_parseAttribute_iff (ha : ∀ t ∈ a.tokens, t.Conforms) :
    (∃ m, parseAttribute a = .ok m) ↔ ∃ q, run (.start 0) a.tokens = some q ∧ q.Final := by
  have hfollows := parseAttribute_follows a
  cases h : parseAttribute a with
  | ok m =>
    rw [h] at hfollows
    exact iff_of_true ⟨m, rfl⟩ hfollows
  | error f =>
    cases f with
    | abort x => exact absurd h (parseAttribute_ne_abort ha x)
    | report e =>
      rw [h] at hfollows
      refine iff_of_false nofun ?_
      rintro ⟨q, hrun, hfinal⟩
      have hstuck : Stuck a.eof e (.start 0) (a.tokens ++ []) := by rwa [List.append_nil]
      exact ((stuck_append hrun).mp hstuck).1 hfinal

namespace AttrParse

/-! ### Ways on -/

def someName : AttrToken := ⟨.name, "a", some default⟩

def someClose : AttrToken := ⟨.rightParen, ")", some default⟩

/-- A way on from the state to a final one. -/
def State.completion : State → List AttrToken
  | .name d _ | .complete d => List.replicate d someClose
  | .word d | .argument d => List.replicate (d + 1) someClose
  | .start d | .separator d _ | .equal d => someName :: List.replicate d someClose

theorem State.conforms_completion (q : State) : ∀ t ∈ q.completion, t.Conforms := by
  have hname : someName.Conforms := ⟨rfl, nameText_iff.mpr rfl, nofun⟩
  have hclose : ∀ d, ∀ t ∈ List.replicate d someClose, t.Conforms := by
    intro d t ht
    rw [List.eq_of_mem_replicate ht]
    exact ⟨rfl, rfl, nofun⟩
  cases q with
  | name d | complete d => exact hclose d
  | word d | argument d => exact hclose (d + 1)
  | start d | separator d | equal d => exact List.forall_mem_cons.mpr ⟨hname, hclose d⟩

theorem step_someClose {q : State} {d : Nat} (h : q.ends = some (d + 1)) : step q someClose = some (.complete d) := by
  cases q with
  | name d' v =>
    obtain rfl := Option.some.inj h
    cases v <;> rfl
  | complete d' =>
    obtain rfl := Option.some.inj h
    rfl
  | word d' =>
    obtain rfl := Nat.succ.inj (Option.some.inj h)
    rfl
  | start | separator | argument | equal => cases h

/-- As many closing parentheses as are open lead to a final state. -/
theorem run_replicate : ∀ {q : State} {d : Nat}, q.ends = some d →
    ∃ q', run q (List.replicate d someClose) = some q' ∧ q'.Final
  | q, 0, h => ⟨q, rfl, h⟩
  | q, d + 1, h => by
    rw [List.replicate_succ, run_cons, step_someClose h]
    exact run_replicate rfl

theorem run_completion (q : State) : ∃ q', run q q.completion = some q' ∧ q'.Final := by
  cases q with
  | name d | complete d | word d => exact run_replicate rfl
  | argument d =>
    rw [State.completion, List.replicate_succ, run_cons]
    exact run_replicate (q := .complete d) rfl
  | start d | separator d v =>
    rw [State.completion, run_cons]
    exact run_replicate (q := .name d _) rfl
  | equal d =>
    rw [State.completion, run_cons]
    exact run_replicate (q := .name d true) rfl

/-- The report is about a token that does not follow on the state before it, or about the end of the tokens. -/
theorem Stuck.cases {eof : Option Span} {e : Diagnostic} : ∀ {q : State} {ts : List AttrToken}, Stuck eof e q ts →
    (∃ pre t post q', ts = pre ++ t :: post ∧ run q pre = some q' ∧ step q' t = none ∧ RefusedAt t.span e) ∨
      ∃ q', run q ts = some q' ∧ EndsEarly eof e
  | q, [], h => .inr ⟨q, rfl, h.2⟩
  | q, t :: ts, h => by
    rw [Stuck] at h
    cases hstep : step q t with
    | none =>
      rw [hstep] at h
      exact .inl ⟨[], t, ts, q, rfl, rfl, hstep, h⟩
    | some q' =>
      rw [hstep] at h
      rcases Stuck.cases h with ⟨pre, u, post, q'', rfl, hrun, hnone, hrefused⟩ | ⟨q'', hrun, hends⟩
      · exact .inl ⟨t :: pre, u, post, q'', rfl, by rw [run_cons, hstep]; exact hrun, hnone, hrefused⟩
      · exact .inr ⟨q'', by rw [run_cons, hstep]; exact hrun, hends⟩

end AttrParse

/-! ### Blocks -/

/-- Some block that is read starts with the tokens, and what comes after them in it conforms. -/
def Viable (ts : List AttrToken) : Prop :=
  ∃ post s m, (∀ t ∈ post, t.Conforms) ∧ parseAttribute ⟨ts ++ post, s⟩ = .ok m

/-- No block that is read starts with the tokens. -/
def Dead (ts : List AttrToken) : Prop := ∀ post s m, parseAttribute ⟨ts ++ post, s⟩ ≠ .ok m

theorem dead_of_run (h : run (.start 0) ts = none) : Dead ts := by
  intro post s m hm
  have hfollows := parseAttribute_follows ⟨ts ++ post, s⟩
  rw [hm] at hfollows
  obtain ⟨q, hrun, -⟩ := hfollows
  rw [run_append, h] at hrun
  cases hrun

theorem viable_of_run {q : State} (hts : ∀ t ∈ ts, t.Conforms) (h : run (.start 0) ts = some q) : Viable ts := by
  obtain ⟨q', hq', hfinal⟩ := run_completion q
  have hall : ∀ t ∈ ts ++ q.completion, t.Conforms := List.forall_mem_append.mpr ⟨hts, q.conforms_completion⟩
  have hrun : run (.start 0) (ts ++ q.completion) = some q' := by rw [run_append, h]; exact hq'
  have hread : ∃ m, parseAttribute ⟨ts ++ q.completion, none⟩ = .ok m :=
    (exists_parseAttribute_iff hall).mpr ⟨q', hrun, hfinal⟩
  exact hread.elim fun m hm => ⟨q.completion, none, m, q.conforms_completion, hm⟩

theorem viable_of_prefix {q : State} (hts : ∀ t ∈ ts, t.Conforms) (h : run (.start 0) ts = some q) (hus : us <+: ts) :
    Viable us := by
  obtain ⟨post, rfl⟩ := hus
  rw [run_append, Option.bind_eq_some_iff] at h
  obtain ⟨q', hq', -⟩ := h
  exact viable_of_run (fun t ht => hts t (List.mem_append_left post ht)) hq'

/-- A block that is refused is so for the first token that makes a front of it dead; or if all its fronts are viable, for
its end. -/
theorem parseAttribute_refused {f : Fault} (ha : ∀ t ∈ a.tokens, t.Conforms) (h : parseAttribute a = .error f) :
    (∃ pre t post message, a.tokens = pre ++ t :: post ∧ (∀ us, us <+: pre → Viable us) ∧ Dead (pre ++ [t]) ∧
        f = .report (.grammar message t.span)) ∨
      (∀ us, us <+: a.tokens → Viable us) ∧
        ∃ what : String, f = .report (.grammar s!"Expected {what}, found end of attribute" a.eof) := by
  cases f with
  | abort x => exact absurd h (parseAttribute_ne_abort ha x)
  | report e =>
    have hfollows := parseAttribute_follows a
    rw [h] at hfollows
    rcases Stuck.cases hfollows with ⟨pre, t, post, q, hts, hrun, hstep, message, rfl⟩ | ⟨q, hrun, what, rfl⟩
    · refine .inl ⟨pre, t, post, message, hts, fun us hus => viable_of_prefix ?_ hrun hus, dead_of_run ?_, rfl⟩
      · exact fun u hu => ha u (hts ▸ List.mem_append_left _ hu)
      · rw [run_append, hrun, Option.bind_some, run_singleton, hstep]
    · exact .inr ⟨fun us hus => viable_of_prefix ha hrun hus, what, rfl⟩

/-- The block `a(b c)` as it stands in a file. -/
def strayBlock : RawAttribute where
  tokens := [(Terminal.name, "a", 1), (.leftParen, "(", 2), (.name, "b", 3), (.name, "c", 5), (.rightParen, ")", 6)].map
    fun q => ⟨q.1, q.2.1, some ⟨"f", 1, q.2.2, some 1, some (q.2.2 + 1)⟩⟩

/-- The block is refused for its `c`. -/
theorem strayBlock_refused : ∃ f, parseAttribute strayBlock = .error f ∧
    ((∃ pre t post message, strayBlock.tokens = pre ++ t :: post ∧ (∀ us, us <+: pre → Viable us) ∧ Dead (pre ++ [t]) ∧
        f = .report (.grammar message t.span)) ∨
      (∀ us, us <+: strayBlock.tokens → Viable us) ∧
        ∃ what : String, f = .report (.grammar s!"Expected {what}, found end of attribute" strayBlock.eof)) := by
  refine ⟨_, rfl, parseAttribute_refused (a := strayBlock) ?_ rfl⟩
  simp only [strayBlock, List.map_cons, List.map_nil, List.forall_mem_cons]
  exact ⟨⟨rfl, nameText_iff.mpr rfl, nofun⟩, ⟨rfl, rfl, nofun⟩, ⟨rfl, nameText_iff.mpr rfl, nofun⟩,
    ⟨rfl, nameText_iff.mpr rfl, nofun⟩, ⟨rfl, rfl, nofun⟩, List.forall_mem_nil _⟩

end TypedErrors
