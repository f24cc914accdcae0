import TypedErrors.Proofs.Attribute.Literal

/-! # Attribute blocks token by token

What may come next in a block depends on a state: what stands in front, and how many parentheses are open. The parser
follows the states (`parseAttribute_follows`): it reads a block when the last of them is final, and reports the first
token that no state follows on, or the end of a block that stops in another state. -/

namespace TypedErrors
namespace AttrParse

/-- What stands in front, `depth` parentheses deep; an argument is one deeper than its list. -/
inductive State where
  /-- Nothing of a node. -/
  | start (depth : Nat)
  /-- A name in the path of a node, or in the path that is the value of one. -/
  | name (depth : Nat) (isValue : Bool)
  /-- A separator in such a path. -/
  | separator (depth : Nat) (isValue : Bool)
  /-- The parenthesis that opens a list, or a comma in it. -/
  | argument (depth : Nat)
  /-- In a list, `true` or `false`. -/
  | word (depth : Nat)
  | equal (depth : Nat)
  /-- A literal, or a list. -/
  | complete (depth : Nat)
deriving DecidableEq

/-- After a whole node or literal come the comma or the parenthesis of the list around it. -/
def after : Nat → AttrToken → Option State
  | 0, _ => none
  | d + 1, t =>
    if t.terminal = .comma then some (.argument d)
    else if t.terminal = .rightParen then some (.complete d)
    else none

def step : State → AttrToken → Option State
  | .start d, t => if t.terminal = .name then some (.name d false) else none
  | .name d isValue, t =>
    if t.terminal = .dot ∨ t.terminal = .pathSep then some (.separator d isValue)
    else if !isValue ∧ t.terminal = .leftParen then some (.argument d)
    else if !isValue ∧ t.terminal = .equal then some (.equal d)
    else after d t
  | .separator d isValue, t => if t.terminal = .name then some (.name d isValue) else none
  | .argument d, t =>
    if t.terminal = .rightParen then some (.complete d)
    else if (boolWord? t).isSome then some (.word d)
    else if isLiteral t then (literal t).toOption.map fun _ => .complete (d + 1)
    else if t.terminal = .name then some (.name (d + 1) false)
    else none
  | .word d, t => if t.terminal = .equal then some (.equal (d + 1)) else after (d + 1) t
  | .equal d, t =>
    if isLiteral t then (literal t).toOption.map fun _ => .complete d
    else if t.terminal = .name then some (.name d true)
    else none
  | .complete d, t => after d t

/-- How deep the whole node or literal is that the state may end. -/
def State.ends : State → Option Nat
  | .name d _ | .complete d => some d
  | .word d => some (d + 1)
  | .start _ | .separator .. | .argument _ | .equal _ => none

/-- A whole block may end here. -/
def State.Final (q : State) : Prop := q.ends = some 0

def run (q : State) (ts : List AttrToken) : Option State := ts.foldlM step q

variable {q q' : State} {d n : Nat} {t : AttrToken} {ts used rest : List AttrToken} {eof : Option Span}
  {e : Diagnostic} {v : Bool}

theorem not_final (h : q.ends = none) : ¬ q.Final := by simp [State.Final, h]

theorem run_append (us : List AttrToken) : run q (ts ++ us) = (run q ts).bind fun q' => run q' us :=
  List.foldlM_append

theorem run_cons : run q (t :: ts) = (step q t).bind fun q' => run q' ts := List.foldlM_cons

theorem run_singleton : run q [t] = step q t := by
  rw [run_cons]
  cases step q t <;> rfl

theorem run_concat {q'' : State} (h : run q used = some q') (hstep : step q' t = some q'') :
    run q (used ++ [t]) = some q'' := by
  rw [run_append, h, Option.bind_some, run_singleton, hstep]

/-! ### Reports -/

/-- The token here is reported. -/
def RefusedAt (s : Option Span) (e : Diagnostic) : Prop := ∃ message, e = .grammar message s

/-- The end of the block is reported. -/
def EndsEarly (eof : Option Span) (e : Diagnostic) : Prop :=
  ∃ what : String, e = .grammar s!"Expected {what}, found end of attribute" eof

/-- The report is about the first token that does not follow on its state, or if there is none about the end of the
tokens, where the state is not final. -/
def Stuck (eof : Option Span) (e : Diagnostic) : State → List AttrToken → Prop
  | q, [] => ¬ q.Final ∧ EndsEarly eof e
  | q, t :: ts =>
    match step q t with
    | none => RefusedAt t.span e
    | some q' => Stuck eof e q' ts

theorem stuck_cons (h : step q t = some q') : Stuck eof e q (t :: ts) ↔ Stuck eof e q' ts := by rw [Stuck, h]

theorem stuck_append (h : run q used = some q') : Stuck eof e q (used ++ ts) ↔ Stuck eof e q' ts := by
  induction used generalizing q with
  | nil =>
    obtain rfl := Option.some.inj h
    exact Iff.rfl
  | cons t used ih =>
    rw [run_cons, Option.bind_eq_some_iff] at h
    obtain ⟨q'', hstep, hrun⟩ := h
    rw [List.cons_append, stuck_cons hstep, ih hrun]

/-- A reader that starts in the state either reads so much, or what it reports is stuck. -/
def FollowsFrom {β : Type} (eof : Option Span) (q : State) (ts : List AttrToken) (P : β → Prop) : Except Fault β → Prop
  | .ok r => P r
  | .error (.report e) => Stuck eof e q ts
  | .error (.abort _) => True

/-- From the state, tokens in front lead to another one, and the rest are left. -/
def Reads (q : State) (ts : List AttrToken) (E : State → List AttrToken → Prop) (rest : List AttrToken) : Prop :=
  ∃ used q', ts = used ++ rest ∧ run q used = some q' ∧ E q' rest

/-- The state ends a whole node or literal, and the next token does not go on with it. -/
structure Ended (d : Nat) (q : State) (rest : List AttrToken) : Prop where
  ends : q.ends = some d
  next : ∀ t ∈ rest.head?, step q t = after d t

section

variable {β γ : Type} {P : β → Prop} {P' : γ → Prop} {x : Except Fault β} {E : State → List AttrToken → Prop}

theorem FollowsFrom.bind {g : β → Except Fault γ} (h : FollowsFrom eof q ts P x)
    (hg : ∀ r, P r → FollowsFrom eof q ts P' (g r)) : FollowsFrom eof q ts P' (x >>= g) := by
  cases x with
  | ok r => exact hg r h
  | error f =>
    cases f with
    | report e => exact h
    | abort a => trivial

theorem FollowsFrom.append {P'' : β → Prop} (hrun : run q used = some q') (h : FollowsFrom eof q' ts P x)
    (hP : ∀ r, P r → P'' r) : FollowsFrom eof q (used ++ ts) P'' x := by
  cases x with
  | ok r => exact hP r h
  | error f =>
    cases f with
    | report e => exact (stuck_append hrun).mpr h
    | abort a => trivial

theorem Reads.append (hrun : run q used = some q') (h : Reads q' ts E rest) : Reads q (used ++ ts) E rest := by
  obtain ⟨more, q'', rfl, hmore, hE⟩ := h
  refine ⟨used ++ more, q'', (List.append_assoc ..).symm, ?_, hE⟩
  rw [run_append, hrun]
  exact hmore

theorem Reads.imp {E' : State → List AttrToken → Prop} (h : Reads q ts E rest) (hE : ∀ q, E q rest → E' q rest) :
    Reads q ts E' rest := by
  obtain ⟨used, q', hts, hrun, hq⟩ := h
  exact ⟨used, q', hts, hrun, hE q' hq⟩

theorem FollowsFrom.shift {left : β → List AttrToken} (hrun : run q used = some q')
    (h : FollowsFrom eof q' ts (fun r => Reads q' ts E (left r)) x) :
    FollowsFrom eof q (used ++ ts) (fun r => Reads q (used ++ ts) E (left r)) x :=
  h.append hrun fun _ h => h.append hrun

theorem misfit_follows_nil {what : String} (hq : ¬ q.Final) : FollowsFrom eof q [] P (.error (misfit eof what [])) :=
  ⟨hq, what, rfl⟩

theorem misfit_follows_cons {what : String} (h : step q t = none) :
    FollowsFrom eof q (t :: ts) P (.error (misfit eof what (t :: ts))) := by
  show Stuck eof _ q (t :: ts)
  rw [Stuck, h]
  exact ⟨_, rfl⟩

end

/-- Where a literal may stand, it leads on if it can be read. -/
theorem literal_follows (h : step q t = (literal t).toOption.map fun _ => q') :
    FollowsFrom eof q (t :: ts) (fun _ => run q [t] = some q') (literal t) := by
  have hread := literalRead t
  generalize literal t = x at h hread
  cases hread with
  | ok _ => exact run_singleton.trans h
  | refused message =>
    show Stuck eof _ q (t :: ts)
    rw [Stuck, h]
    exact ⟨message, rfl⟩
  | abort _ => trivial

/-! ### Paths -/

theorem step_name (ht : t.terminal = .dot ∨ t.terminal = .pathSep) : step (.name d v) t = some (.separator d v) :=
  if_pos ht

theorem step_separator (ht : t.terminal = .name) : step (.separator d v) t = some (.name d v) := if_pos ht

theorem pathRest_follows (d : Nat) (v : Bool) : ∀ (acc : List Ident) (ts : List AttrToken),
    FollowsFrom eof (.name d v) ts
      (fun r => Reads (.name d v) ts (fun q rest => q = .name d v ∧ EndsPath rest) r.2) (pathRest eof acc ts)
  | acc, [] => ⟨[], _, rfl, rfl, rfl, by simp [EndsPath]⟩
  | acc, [t] => by
    rw [pathRest]
    split_ifs with ht
    · have hrun : run (.name d v) [t] = some (.separator d v) := run_singleton.trans (step_name ht)
      exact (misfit_follows_nil (not_final (q := .separator d v) rfl)).append hrun fun _ h => h
    · exact ⟨[], _, rfl, rfl, rfl, by simpa [EndsPath, not_or] using ht⟩
  | acc, t :: u :: ts => by
    rw [pathRest]
    split_ifs with ht hu
    · have hrun : run (.name d v) [t, u] = some (.name d v) := by
        rw [run_cons, step_name ht, Option.bind_some, run_singleton, step_separator hu]
      exact (pathRest_follows d v _ ts).shift hrun
    · have hrun : run (.name d v) [t] = some (.separator d v) := run_singleton.trans (step_name ht)
      exact (misfit_follows_cons (q := .separator d v) (if_neg hu)).append hrun fun _ h => h
    · exact ⟨[], _, rfl, rfl, rfl, by simpa [EndsPath, not_or] using ht⟩

/-- A path is followed from any state on which a name comes next. -/
theorem path_follows (ht : t.terminal = .name) (hstep : step q t = some (.name d v)) :
    FollowsFrom eof q (t :: ts) (fun r => Reads q (t :: ts) (fun q rest => q = .name d v ∧ EndsPath rest) r.2)
      (path eof (t :: ts)) := by
  rw [path, if_pos ht]
  have hrun : run q [t] = some (.name d v) := run_singleton.trans hstep
  exact FollowsFrom.bind ((pathRest_follows d v [] ts).shift hrun) fun r h => h

theorem path_follows_start (d : Nat) : ∀ ts : List AttrToken,
    FollowsFrom eof (.start d) ts (fun r => Reads (.start d) ts (fun q rest => q = .name d false ∧ EndsPath rest) r.2)
      (path eof ts)
  | [] => misfit_follows_nil (not_final rfl)
  | t :: ts => by
    by_cases ht : t.terminal = .name
    · exact path_follows ht (if_pos ht)
    · rw [path, if_neg ht]
      exact misfit_follows_cons (if_neg ht)

/-! ### Values -/

theorem ended_complete (d : Nat) (rest : List AttrToken) : Ended d (.complete d) rest := ⟨rfl, fun _ _ => rfl⟩

/-- Behind a path nothing goes on with it but an opening parenthesis or `=`, and those not behind a value. -/
theorem ended_name (hpath : EndsPath rest) (hrest : v = true ∨ EndsNode rest) : Ended d (.name d v) rest := by
  refine ⟨rfl, fun t ht => ?_⟩
  have hsep : ¬ (t.terminal = .dot ∨ t.terminal = .pathSep) := not_or.mpr (hpath t ht)
  rw [step, if_neg hsep]
  rcases hrest with rfl | hnode
  · simp
  · obtain ⟨more, rfl⟩ := List.head?_eq_some_iff.mp ht
    have hparen : t.terminal ≠ .leftParen := of_decide_eq_false hnode.paren
    have hequal : t.terminal ≠ .equal := of_decide_eq_false hnode.equal
    simp [hparen, hequal]

theorem value_follows (d : Nat) : ∀ ts : List AttrToken,
    FollowsFrom eof (.equal d) ts (fun r => Reads (.equal d) ts (Ended d) r.2) (value eof ts)
  | [] => misfit_follows_nil (not_final rfl)
  | t :: ts => by
    rw [value]
    split_ifs with hlit hname
    · have hstep : step (.equal d) t = (literal t).toOption.map fun _ => .complete d := by rw [step, if_pos hlit]
      exact FollowsFrom.bind (literal_follows hstep) fun l hrun => ⟨[t], _, rfl, hrun, ended_complete d ts⟩
    · have hstep : step (.equal d) t = some (.name d true) := by rw [step, if_neg hlit, if_pos hname]
      refine FollowsFrom.bind (path_follows hname hstep) fun r h => ?_
      obtain ⟨used, q, hts, hrun, rfl, hpath⟩ := h
      exact ⟨used, _, hts, hrun, ended_name hpath (.inl rfl)⟩
    · exact misfit_follows_cons (by rw [step, if_neg hlit, if_neg hname])

/-! ### Nodes and arguments -/

/-- A node that starts with a name is followed from any state on which that name comes next. -/
theorem FollowsFrom.congr {x : Except Fault (AttrNode × List AttrToken)}
    (h : FollowsFrom eof (.start d) (t :: ts) (fun r => Reads (.start d) (t :: ts) (Ended d) r.2) x)
    (hstep : step (.start d) t = step q t) :
    FollowsFrom eof q (t :: ts) (fun r => Reads q (t :: ts) (Ended d) r.2) x := by
  cases x with
  | ok r =>
    obtain ⟨used, q', hts, hrun, hended⟩ := h
    cases used with
    | nil =>
      obtain rfl := Option.some.inj hrun
      cases hended.ends
    | cons u used =>
      obtain ⟨rfl, -⟩ := List.cons.inj hts
      rw [run_cons, hstep, ← run_cons] at hrun
      exact ⟨_, q', hts, hrun, hended⟩
  | error f =>
    cases f with
    | report e =>
      show Stuck eof e q (t :: ts)
      rw [Stuck, ← hstep]
      exact h
    | abort a => trivial

/-- With so much fuel the parser follows the states. -/
structure Tracks (eof : Option Span) (n : Nat) : Prop where
  node : ∀ (d : Nat) {ts : List AttrToken}, 3 * ts.length + 1 ≤ n →
    FollowsFrom eof (.start d) ts (fun r => Reads (.start d) ts (Ended d) r.2) (node eof n ts)
  args : ∀ (d : Nat) (acc : List AttrArg) {ts : List AttrToken}, 3 * ts.length + 3 ≤ n →
    FollowsFrom eof (.argument d) ts (fun r => Reads (.argument d) ts (fun q _ => q = .complete d) r.2.2) (args eof n acc ts)
  arg : ∀ (d : Nat) {ts : List AttrToken}, startsWith .rightParen ts = false → 3 * ts.length + 2 ≤ n →
    FollowsFrom eof (.argument d) ts (fun r => Reads (.argument d) ts (Ended (d + 1)) r.2) (arg eof n ts)

namespace Tracks

theorem node_succ (ih : Tracks eof n) (d : Nat) (hn : 3 * ts.length + 1 ≤ n + 1) :
    FollowsFrom eof (.start d) ts (fun r => Reads (.start d) ts (Ended d) r.2) (AttrParse.node eof (n + 1) ts) := by
  rw [AttrParse.node]
  refine FollowsFrom.bind (path_follows_start d ts) fun r h => ?_
  obtain ⟨used, q, hts, hrun, rfl, hpath⟩ := h
  obtain ⟨p, rest⟩ := r
  rw [hts] at hn ⊢
  cases rest with
  | nil => exact ⟨used, _, rfl, hrun, ended_name hpath (.inr .nil)⟩
  | cons k rest =>
    have hused : used ≠ [] := by
      rintro rfl
      cases hrun
    have hlength := List.length_pos_iff.mpr hused
    rw [List.length_append, List.length_cons] at hn
    simp only
    split_ifs with hparen hequal
    · have hrun' := run_concat hrun (show step _ k = some (.argument d) by simp [step, hparen])
      rw [List.append_cons]
      refine FollowsFrom.bind ((ih.args d [] (by omega)).shift hrun') fun r h => ?_
      exact h.imp fun q hq => hq ▸ ended_complete d _
    · have hrun' := run_concat hrun (show step _ k = some (.equal d) by simp [step, hequal])
      rw [List.append_cons]
      exact FollowsFrom.bind ((value_follows d rest).shift hrun') fun r h => h
    · exact ⟨used, _, rfl, hrun, ended_name hpath (.inr ⟨hpath, decide_eq_false hparen, decide_eq_false hequal⟩)⟩

theorem args_succ (ih : Tracks eof n) (d : Nat) (acc : List AttrArg) (hn : 3 * ts.length + 3 ≤ n + 1) :
    FollowsFrom eof (.argument d) ts (fun r => Reads (.argument d) ts (fun q _ => q = .complete d) r.2.2)
      (AttrParse.args eof (n + 1) acc ts) := by
  cases ts with
  | nil =>
    rw [AttrParse.args]
    exact misfit_follows_nil (not_final rfl)
  | cons t ts =>
    rw [AttrParse.args]
    split_ifs with hclose
    · exact ⟨[t], _, rfl, run_singleton.trans (if_pos hclose), rfl⟩
    · refine FollowsFrom.bind (ih.arg d (decide_eq_false hclose) (by omega)) fun r h => ?_
      obtain ⟨used, q, hts, hrun, hended⟩ := h
      obtain ⟨a, rest⟩ := r
      have hopen : ¬ q.Final := by simp [State.Final, hended.ends]
      have hused : used ≠ [] := by
        rintro rfl
        obtain rfl := Option.some.inj hrun
        cases hended.ends
      have hlength := List.length_pos_iff.mpr hused
      rw [hts] at hn ⊢
      cases rest with
      | nil => exact (misfit_follows_nil hopen).append hrun fun _ h => h
      | cons c rest =>
        rw [List.length_append, List.length_cons] at hn
        have hnext : step q c = after (d + 1) c := hended.next c rfl
        simp only
        split_ifs with hcomma hclose'
        · have hrun' := run_concat hrun (hnext.trans (if_pos hcomma))
          rw [List.append_cons]
          exact (ih.args d (a :: acc) (by omega)).shift hrun'
        · -- the parenthesis is left to a call that reads nothing else
          obtain ⟨k, rfl⟩ : ∃ k, n = k + 1 := ⟨n - 1, by omega⟩
          rw [AttrParse.args, if_pos hclose', List.append_cons]
          have hstep : step q c = some (.complete d) := by rw [hnext, after, if_neg hcomma, if_pos hclose']
          exact ⟨used ++ [c], _, rfl, run_concat hrun hstep, rfl⟩
        · have hstep : step q c = none := by rw [hnext, after, if_neg hcomma, if_neg hclose']
          exact (misfit_follows_cons hstep).append hrun fun _ h => h

/-- Before `=` a word of a literal is the name of a node. -/
theorem node_of_equal (d : Nat) {e : AttrToken} (ht : t.terminal = .name) (he : e.terminal = .equal)
    (hrun : run q [t, e] = some (.equal d)) :
    FollowsFrom eof q (t :: e :: ts) (fun r => Reads q (t :: e :: ts) (Ended d) r.2)
      (AttrParse.node eof (n + 1) (t :: e :: ts)) := by
  have hpath : path eof (t :: e :: ts) = .ok (_, e :: ts) := path_complete (.mk ht .nil) (.of_terminal (by simp [he]))
  rw [AttrParse.node, hpath]
  show FollowsFrom _ _ _ _ (if e.terminal = .leftParen then _ else _)
  rw [if_neg (by simp [he]), if_pos he]
  exact FollowsFrom.bind ((value_follows d ts).shift hrun) fun r h => h

theorem terminal_of_boolWord? (h : (boolWord? t).isSome = true) : t.terminal = .name := by
  by_contra hname
  rw [boolWord?, if_neg hname] at h
  cases h

theorem arg_succ (ih : Tracks eof n) (d : Nat) (hts : startsWith .rightParen ts = false)
    (hn : 3 * ts.length + 2 ≤ n + 1) :
    FollowsFrom eof (.argument d) ts (fun r => Reads (.argument d) ts (Ended (d + 1)) r.2) (AttrParse.arg eof (n + 1) ts) := by
  cases ts with
  | nil =>
    rw [AttrParse.arg]
    exact misfit_follows_nil (not_final rfl)
  | cons t ts =>
    have hclose : t.terminal ≠ .rightParen := of_decide_eq_false hts
    rw [AttrParse.arg]
    by_cases hword : (boolWord? t).isSome = true
    · have hstep : step (.argument d) t = some (.word d) := by rw [step, if_neg hclose, if_pos hword]
      have ht := terminal_of_boolWord? hword
      have hlit : isLiteral t = true := by rw [isLiteral, hword, Bool.or_true]
      rw [hword, hlit]
      cases hequal : startsWith .equal ts with
      | true =>
        cases ts with
        | nil => cases hequal
        | cons e ts =>
          have he : e.terminal = .equal := of_decide_eq_true hequal
          have hrun : run (.argument d) [t, e] = some (.equal (d + 1)) := by
            rw [run_cons, hstep, Option.bind_some, run_singleton, step, if_pos he]
          obtain ⟨k, rfl⟩ : ∃ k, n = k + 1 := ⟨n - 1, by omega⟩
          rw [if_neg (by simp), if_pos ht]
          exact FollowsFrom.bind (node_of_equal (d + 1) ht he hrun) fun r h => h
      | false =>
        obtain ⟨b, hb⟩ := Option.isSome_iff_exists.mp hword
        rw [if_pos (by simp), literal, hb]
        refine ⟨[t], .word d, rfl, run_singleton.trans hstep, rfl, fun u hu => ?_⟩
        obtain ⟨more, rfl⟩ := List.head?_eq_some_iff.mp hu
        exact if_neg (of_decide_eq_false hequal)
    · rw [Bool.eq_false_iff.mpr hword, Bool.false_and, Bool.not_false, Bool.and_true]
      split_ifs with hlit hname
      · have hstep : step (.argument d) t = (literal t).toOption.map fun _ => .complete (d + 1) := by
          rw [step, if_neg hclose, if_neg hword, if_pos hlit]
        exact FollowsFrom.bind (literal_follows hstep) fun l hrun => ⟨[t], _, rfl, hrun, ended_complete _ ts⟩
      · have hstep : step (.start (d + 1)) t = step (.argument d) t := by
          rw [step, if_pos hname, step, if_neg hclose, if_neg hword, if_neg hlit, if_pos hname]
        exact FollowsFrom.bind ((ih.node (d + 1) (by omega)).congr hstep) fun r h => h
      · exact misfit_follows_cons (by rw [step, if_neg hclose, if_neg hword, if_neg hlit, if_neg hname])

end Tracks

theorem tracks (eof : Option Span) : ∀ n, Tracks eof n
  | 0 => ⟨fun _ _ h => by omega, fun _ _ _ h => by omega, fun _ _ _ h => by omega⟩
  | n + 1 => ⟨fun d _ => (tracks eof n).node_succ d, fun d acc _ => (tracks eof n).args_succ d acc,
      fun d _ => (tracks eof n).arg_succ d⟩

end AttrParse

open AttrParse

/-- The place of the last token, or of the block where there is none. -/
def RawAttribute.eof (a : RawAttribute) : Option Span :=
  match a.tokens.getLast? with
  | some t => t.span
  | none => a.span

/-- A block is read only if its tokens lead to a final state, and what is reported of it is stuck. -/
theorem parseAttribute_follows (a : RawAttribute) :
    FollowsFrom a.eof (.start 0) a.tokens (fun _ => ∃ q, run (.start 0) a.tokens = some q ∧ q.Final) (parseAttribute a) := by
  refine FollowsFrom.bind ((tracks a.eof _).node 0 (by omega)) fun r h => ?_
  obtain ⟨used, q, hts, hrun, hended⟩ := h
  obtain ⟨m, rest⟩ := r
  rw [hts]
  cases rest with
  | nil =>
    rw [List.append_nil]
    exact ⟨q, hrun, hended.ends⟩
  | cons t rest =>
    refine (stuck_append hrun).mpr ?_
    rw [Stuck, hended.next t rfl]
    exact ⟨_, rfl⟩

end TypedErrors
