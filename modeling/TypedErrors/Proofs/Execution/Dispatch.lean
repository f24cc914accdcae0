import TypedErrors.Proofs.Execution.Reach

/-! # Finding the case of a value

A function in a class goes through the cases of an enum with one pattern for each, which names the class of the
case. It comes to the case of its argument when it reaches all cases up to that one by their names
(`firstMatch_of_reaches`, `reaches_of_firstMatch`). -/

namespace TypedErrors
namespace Execution

open Code Generated Generation

/-- Code that is written in the class `o`, in a function of the parameter `p`, finds the case `n` by its name. The
parameter may have the name of the type, and then holds a value with the attributes `keys`. -/
structure Reaches (o p : String) (t : ErrorType) (keys : List Key) (n : String) : Prop where
  ident : Key.within o t.ident = .plain t.ident
  case : Key.within o n = .plain n
  param : t.ident = p → Key.plain n ∉ keys

instance (o p : String) (t : ErrorType) (keys : List Key) (n : String) : Decidable (Reaches o p t keys n) :=
  decidable_of_iff (Key.within o t.ident = .plain t.ident ∧ Key.within o n = .plain n ∧
    (t.ident = p → Key.plain n ∉ keys)) ⟨fun h => ⟨h.1, h.2.1, h.2.2⟩, fun h => ⟨h.ident, h.case, h.param⟩⟩

/-- The names of the cases up to number `i`. -/
def namesUpTo (t : ErrorType) (i : Nat) : List String := (t.kindCases.map (·.ident)).take (i + 1)

theorem mem_namesUpTo {t : ErrorType} {i : Nat} {c : KindCase} (hc : t.kindCases[i]? = some c) :
    c.ident ∈ namesUpTo t i := by
  refine List.mem_of_getElem? (i := i) ?_
  rw [namesUpTo, List.getElem?_take_of_lt (Nat.lt_succ_self i), List.getElem?_map, hc]
  rfl

/-- A call in a module, in a function that binds these names. -/
def caseCall (m : Frame) (o p : String) (names : List String) : Call :=
  ⟨m.heap, m.bindings, o, .within o p :: names.map (.within o)⟩

/-- The values are not classes. -/
def NoClasses (vals : List Value) : Prop := ∀ v ∈ vals, ∀ id, v ≠ .cls id

theorem exists_ne_given (o : Option Value) : ∃ n, o ≠ some (.given n) := by
  by_cases h : o = some (.given 0)
  · refine ⟨1, ?_⟩
    rw [h]
    exact fun he => Nat.zero_ne_one (Value.given.inj (Option.some.inj he))
  · exact ⟨0, h⟩

theorem within_eq_or (o n : String) : Key.within o n = .plain n ∨ (Key.within o n).owner ≠ [] := by
  by_cases h : (Key.within o n).owner = []
  · exact .inl (congrArg (Key.mk · n) h)
  · exact .inr h

section
variable {g : GeneratedType} {m : Frame} {o p : String} {names : List String} {env : Env} {n : String} {v x : Value}

theorem look_local (hn : n = p ∨ n ∈ names) :
    ((caseCall m o p names).scope env).look (.within o n) = env.lookup (.within o n) := by
  have hmem : Key.within o n ∈ Key.within o p :: names.map (.within o) := by
    rcases hn with rfl | hn
    · exact List.mem_cons_self ..
    · exact List.mem_cons_of_mem _ (List.mem_map_of_mem hn)
  exact if_pos hmem

theorem look_global (hp : n ≠ p) (hn : n ∉ names) :
    ((caseCall m o p names).scope env).look (.within o n) = m.bindings.lookup (.within o n) := by
  have hmem : Key.within o n ∉ Key.within o p :: names.map (.within o) := by
    intro hmem
    rcases List.mem_cons.mp hmem with h | hmem
    · exact hp (Key.within_inj h)
    · obtain ⟨k, hk, h⟩ := List.mem_map.mp hmem
      exact hn (Key.within_inj h ▸ hk)
  exact if_neg hmem

/-- A name of the module that is bound nowhere in a function is found in the module. -/
theorem Stands.look_eq_some (h : Stands g m) (hp : n ≠ p) (hn : n ∉ names)
    (hv : ((caseCall m o p names).scope env).look (.within o n) = some v) :
    Key.within o n = .plain n ∧ m.bindings.lookup (.plain n) = some v := by
  rw [look_global hp hn] at hv
  rcases within_eq_or o n with hplain | howner
  · exact ⟨hplain, hplain ▸ hv⟩
  · rw [h.lookup_of_owner howner] at hv
    cases hv

end

section
variable {g : GeneratedType} {m : Frame} {o p : String} {names : List String} {n : String} {i id : Nat} {c : KindCase}
  {vals : List Value}

theorem Stands.attr?_contextClass (h : Stands g m) (hc : g.type.kindCases[i]? = some c) (k : Key) :
    m.heap.attr? (contextClass g.type i) k = (contextAttrs g.type).lookup k := by
  unfold contextClass
  cases hs : g.type.isStruct with
  | true => exact h.attr?_context k
  | false => exact h.attr?_contextCase (getElem?_contextCases hs hc) k

theorem lookup_zip_eq_none {keys : List Key} {k : Key} (hlen : vals.length = keys.length) :
    (keys.zip vals).lookup k = none ↔ k ∉ keys := by
  rw [List.lookup_eq_none_iff]
  constructor
  · intro h hk
    have hkeys : (keys.zip vals).map (·.1) = keys := List.map_fst_zip (Nat.le_of_eq hlen.symm)
    rw [← hkeys] at hk
    obtain ⟨q, hq, rfl⟩ := List.mem_map.mp hk
    exact bne_iff_ne.mp (h q hq) rfl
  · intro hk q hq
    refine bne_iff_ne.mpr fun he => hk ?_
    rw [he]
    exact (List.of_mem_zip hq).1

/-- The argument of a call, as the only value that is bound when a pattern is tried. -/
def caseEnv (o p : String) (x : Value) : Env := [(.within o p, x)]

/-- The class that a pattern of a case names. -/
def caseType (t : ErrorType) (n : String) : Expr := .dotted (t.ident ++ "." ++ n)

theorem Stands.eval_caseType (h : Stands g m) (hn : Undotted n) {env : Env} :
    eval ((caseCall m o p names).scope env) (caseType g.type n) =
      (((caseCall m o p names).scope env).look (.within o g.type.ident)).bind (·.attr? m.heap (.within o n)) := by
  rw [caseType, dotted_pair rfl h.loaded.undotted_ident hn, eval, eval]
  rfl

theorem Stands.attr?_contextValue (h : Stands g m) (hc : g.type.kindCases[i]? = some c) (k : Key) :
    (contextValue g.type i c vals).attr? m.heap k =
      (((contextKeys g.type c).zip vals).lookup k <|> (contextAttrs g.type).lookup k) := by
  rw [← h.attr?_contextClass hc k]
  rfl

/-- A case that is reached is found among the attributes of the context class. -/
theorem Stands.eval_of_reaches (h : Stands g m) (hc : g.type.kindCases[i]? = some c) (hn : Undotted n)
    (hlen : vals.length = c.allFields.size) (hident : g.type.ident ∉ names)
    (hr : Reaches o p g.type (contextKeys g.type c) n) :
    eval ((caseCall m o p names).scope (caseEnv o p (contextValue g.type i c vals))) (caseType g.type n) =
      (contextAttrs g.type).lookup (.plain n) := by
  rw [h.eval_caseType hn, hr.case]
  by_cases hp : g.type.ident = p
  · rw [look_local (.inl hp), hp, caseEnv, List.lookup_cons_self]
    show (contextValue g.type i c vals).attr? m.heap _ = _
    rw [h.attr?_contextValue hc, (lookup_zip_eq_none (hlen.trans length_contextKeys.symm)).mpr (hr.param hp)]
    rfl
  · rw [look_global hp hident, hr.ident, h.lookup_ident]
    exact h.attr?_context _

/-- A case that is found is reached, when the value has no classes in it. -/
theorem Stands.reaches_of_eval (h : Stands g m) (hc : g.type.kindCases[i]? = some c) (hn : Undotted n)
    (hlen : vals.length = c.allFields.size) (hident : g.type.ident ∉ names) (hp : isPrivate p = false)
    (hvals : NoClasses vals)
    (he : eval ((caseCall m o p names).scope (caseEnv o p (contextValue g.type i c vals))) (caseType g.type n) =
      some (.cls id)) :
    Reaches o p g.type (contextKeys g.type c) n ∧ (contextAttrs g.type).lookup (.plain n) = some (.cls id) := by
  rw [h.eval_caseType hn] at he
  obtain ⟨v, hv, hattr⟩ := Option.bind_eq_some_iff.mp he
  have hplain : ∀ hk : (contextAttrs g.type).lookup (.within o n) = some (.cls id), Key.within o n = .plain n :=
    fun hk => (within_eq_or o n).resolve_right fun howner => howner (contextAttr_of_lookup hk).owner
  by_cases hident' : g.type.ident = p
  · rw [look_local (.inl hident'), hident', caseEnv, List.lookup_cons_self] at hv
    obtain rfl := Option.some.inj hv
    rw [h.attr?_contextValue hc] at hattr
    cases hlookup : ((contextKeys g.type c).zip vals).lookup (.within o n) with
    | none =>
      have hk : (contextAttrs g.type).lookup (.within o n) = some (.cls id) := by
        rw [hlookup] at hattr
        exact hattr
      have hn := hplain hk
      rw [hn] at hlookup hk
      exact ⟨⟨hident' ▸ Key.within_eq_plain hp, hn, fun _ => (lookup_zip_eq_none (hlen.trans length_contextKeys.symm)).mp hlookup⟩, hk⟩
    | some w =>
      rw [hlookup] at hattr
      obtain rfl : w = .cls id := Option.some.inj hattr
      exact absurd rfl (hvals _ (List.of_mem_zip (mem_of_lookup hlookup)).2 id)
  · obtain ⟨hi, hlookup⟩ := h.look_eq_some hident' hident hv
    rw [h.lookup_ident] at hlookup
    obtain rfl := Option.some.inj hlookup
    have hk : (contextAttrs g.type).lookup (.within o n) = some (.cls id) := by
      rw [← h.attr?_context]
      exact hattr
    exact ⟨⟨hi, hplain hk, fun hp => absurd hp hident'⟩, hplain hk ▸ hk⟩

/-! ### The first case that matches -/

/-- A value of an enum is of no other class than that of its case and the context class. -/
theorem Stands.isInstance_contextValue (h : Stands g m) (hs : g.type.isStruct = false)
    (hc : g.type.kindCases[i]? = some c) :
    m.heap.isInstance (contextValue g.type i c vals) id = true ↔ id = i + 1 ∨ id = 0 := by
  have hid : contextClass g.type i = i + 1 := by rw [contextClass, hs]; rfl
  show (m.heap.ancestors (contextClass g.type i)).contains id = true ↔ _
  rw [hid, h.ancestors_contextCase (getElem?_contextCases hs hc)]
  simp

theorem lt_wrapperClass {t : ErrorType} {j : Nat} (hj : j ≤ (contextCases t).length) : j < wrapperClass t :=
  Nat.lt_of_le_of_lt hj (Nat.lt_add_right _ (Nat.lt_succ_of_lt (Nat.lt_succ_self _)))

/-- The class that a name of a case leads to is no class of a value of an enum, unless the name is that of its
case. -/
theorem Stands.isInstance_of_lookup (h : Stands g m) (hs : g.type.isStruct = false)
    (hc : g.type.kindCases[i]? = some c) (hlookup : (contextAttrs g.type).lookup (.plain n) = some (.cls id))
    (hv : m.heap.isInstance (contextValue g.type i c vals) id = true) : n = c.ident ∧ c.ident ≠ "error_type" := by
  obtain ⟨hi, -⟩ := List.getElem?_eq_some_iff.mp (getElem?_contextCases hs hc)
  have hw : i + 1 < wrapperClass g.type := lt_wrapperClass hi
  rw [h.isInstance_contextValue hs hc] at hv
  cases contextAttr_of_lookup hlookup with
  | wrapper => omega
  | @attached j a ha =>
    obtain rfl : j = i := by omega
    rw [getElem?_contextCases hs hc] at ha
    obtain rfl := Option.some.inj ha
    refine ⟨rfl, fun herror => ?_⟩
    have hwrapper : (contextAttrs g.type).lookup (.plain c.ident) = some (.cls (wrapperClass g.type)) := by
      rw [herror]
      exact lookup_error_type
    have hid : j + 1 = wrapperClass g.type := Value.cls.inj (Option.some.inj (hlookup.symm.trans hwrapper))
    omega

/-- The name of a case leads to a class. -/
theorem Stands.exists_class_of_name (h : Stands g m) (hs : g.type.isStruct = false)
    (hn : n ∈ g.type.kindCases.map (·.ident)) : ∃ id, (contextAttrs g.type).lookup (.plain n) = some (.cls id) := by
  by_cases hne : n = "error_type"
  · exact ⟨_, hne ▸ lookup_error_type⟩
  · obtain ⟨c, hc, rfl⟩ := List.mem_map.mp hn
    obtain ⟨j, hj⟩ := List.getElem?_of_mem hc
    exact ⟨_, h.lookup_case hs hj hne⟩

theorem exists_split_of_getElem? {α : Type} {l : List α} {x : α} (hx : l[i]? = some x) :
    ∃ before after, l = before ++ x :: after ∧ before.length = i := by
  obtain ⟨hi, rfl⟩ := List.getElem?_eq_some_iff.mp hx
  exact ⟨l.take i, l.drop (i + 1), by rw [List.getElem_cons_drop, List.take_append_drop],
    List.length_take_of_le (Nat.le_of_lt hi)⟩

section
variable {β : Type} {items : List β} {name : β → String} {pattern : β → Pattern} {value : β → Expr} {y : β}
  {x r : Value}

/-- The pattern of each case names its class. -/
def Names (t : ErrorType) (name : β → String) (pattern : β → Pattern) : Prop :=
  ∀ y, ∃ args keywords, pattern y = .cls (caseType t (name y)) args keywords

theorem namesUpTo_eq {before after : List β}
    (hitems : (before ++ y :: after).map name = g.type.kindCases.map (·.ident)) :
    namesUpTo g.type before.length = before.map name ++ [name y] := by
  rw [namesUpTo, ← hitems, List.map_append, List.map_cons, List.append_cons, ← List.length_map (f := name),
    List.take_left' (by simp)]

theorem name_of_split {before after : List β}
    (hitems : (before ++ y :: after).map name = g.type.kindCases.map (·.ident))
    (hc : g.type.kindCases[before.length]? = some c) : name y = c.ident := by
  have hget := congrArg (·[before.length]?) hitems
  simpa [hc] using hget

/-- A case before that of a value does not match. -/
theorem Stands.bindPattern_before (h : Stands g m) (hs : g.type.isStruct = false) {before after : List β}
    (hc : g.type.kindCases[before.length]? = some c)
    (hitems : (before ++ y :: after).map name = g.type.kindCases.map (·.ident))
    (hpattern : Names g.type name pattern) (hident : g.type.ident ∉ names)
    (hlen : vals.length = c.allFields.size) {z : β} (hz : z ∈ before)
    (hr : Reaches o p g.type (contextKeys g.type c) (name z)) :
    bindPattern ((caseCall m o p names).scope (caseEnv o p (contextValue g.type before.length c vals)))
      (contextValue g.type before.length c vals) (pattern z) = some none := by
  have hmem : name z ∈ g.type.kindCases.map (·.ident) := by
    rw [← hitems]
    exact List.mem_map_of_mem (List.mem_append_left _ hz)
  have hne : name z ≠ c.ident := by
    have hnodup := h.apart.cases
    rw [← hitems, List.map_append, List.map_cons] at hnodup
    rw [← name_of_split hitems hc]
    exact (List.nodup_append.mp hnodup).2.2 _ (List.mem_map_of_mem hz) _ (List.mem_cons_self ..)
  obtain ⟨id, hlookup⟩ := h.exists_class_of_name hs hmem
  obtain ⟨k, hk, hident'⟩ := List.mem_map.mp hmem
  have heval : eval ((caseCall m o p names).scope (caseEnv o p (contextValue g.type before.length c vals)))
      (caseType g.type (name z)) = some (.cls id) := by
    rw [h.eval_of_reaches hc (hident' ▸ h.loaded.undotted_cases k hk) hlen hident hr, hlookup]
  obtain ⟨args, keywords, hp⟩ := hpattern z
  rw [hp]
  refine bindPattern_cls_of_not heval (Bool.eq_false_iff.mpr fun hv => hne ?_)
  exact (h.isInstance_of_lookup hs hc hlookup hv).1

/-- The case of a value is the first one that matches, when all cases up to it are reached. -/
theorem Stands.firstMatch_of_reaches (h : Stands g m) (hs : g.type.isStruct = false)
    (hc : g.type.kindCases[i]? = some c) (hitems : items.map name = g.type.kindCases.map (·.ident))
    (hy : items[i]? = some y) (hpattern : Names g.type name pattern) (hident : g.type.ident ∉ names)
    (hlen : vals.length = c.allFields.size)
    (hr : ∀ n ∈ namesUpTo g.type i, Reaches o p g.type (contextKeys g.type c) n) {bound : Env}
    (hbound : bindPattern ((caseCall m o p names).scope (caseEnv o p (contextValue g.type i c vals)))
      (contextValue g.type i c vals) (pattern y) = some (some bound))
    (hvalue : eval ((caseCall m o p names).scope (bound ++ caseEnv o p (contextValue g.type i c vals))) (value y) =
      some r) :
    FirstMatch (caseCall m o p names) (caseEnv o p (contextValue g.type i c vals)) pattern value
      (contextValue g.type i c vals) r items := by
  obtain ⟨before, after, rfl, rfl⟩ := exists_split_of_getElem? hy
  rw [namesUpTo_eq hitems] at hr
  refine ⟨before, y, after, bound, rfl, fun z hz => ?_, hbound, hvalue⟩
  exact h.bindPattern_before hs hc hitems hpattern hident hlen hz
    (hr _ (List.mem_append_left _ (List.mem_map_of_mem hz)))

/-- When a case matches, no pattern captures the name of the type. -/
theorem Stands.ident_not_mem_of_firstMatch (h : Stands g m) (hitems : items.map name = g.type.kindCases.map (·.ident))
    (hpattern : Names g.type name pattern) (hne : g.type.ident ∈ names → g.type.ident ≠ p)
    (hfirst : FirstMatch (caseCall m o p names) (caseEnv o p x) pattern value x r items) :
    g.type.ident ∉ names := by
  intro hmem
  obtain ⟨before, y, after, bound, rfl, -, hbound, -⟩ := hfirst
  obtain ⟨args, keywords, hpy⟩ := hpattern y
  rw [hpy] at hbound
  obtain ⟨id, hid⟩ := exists_class_of_bindPattern hbound
  have hy : name y ∈ g.type.kindCases.map (·.ident) := by
    rw [← hitems]
    exact List.mem_map_of_mem (by simp)
  obtain ⟨k, hk, hident⟩ := List.mem_map.mp hy
  rw [h.eval_caseType (hident ▸ h.loaded.undotted_cases k hk), look_local (.inr hmem), caseEnv,
    lookup_cons_of_ne fun he => hne hmem (Key.within_inj he)] at hid
  cases hid

/-- The first case that matches a value without classes in it is its own, and all cases up to it are reached. -/
theorem Stands.reaches_of_firstMatch (h : Stands g m) (hs : g.type.isStruct = false)
    (hc : g.type.kindCases[i]? = some c) (hitems : items.map name = g.type.kindCases.map (·.ident))
    (hpattern : Names g.type name pattern) (hident : g.type.ident ∉ names)
    (hp : isPrivate p = false) (hlen : vals.length = c.allFields.size) (hvals : NoClasses vals)
    (hfirst : FirstMatch (caseCall m o p names) (caseEnv o p (contextValue g.type i c vals)) pattern value
      (contextValue g.type i c vals) r items) :
    (∀ n ∈ namesUpTo g.type i, Reaches o p g.type (contextKeys g.type c) n) ∧ c.ident ≠ "error_type" ∧
      ∃ y bound, items[i]? = some y ∧
        bindPattern ((caseCall m o p names).scope (caseEnv o p (contextValue g.type i c vals)))
          (contextValue g.type i c vals) (pattern y) = some (some bound) ∧
        eval ((caseCall m o p names).scope (bound ++ caseEnv o p (contextValue g.type i c vals))) (value y) =
          some r := by
  obtain ⟨before, y, after, bound, rfl, hbefore, hbound, hvalue⟩ := hfirst
  have htype : ∀ z ∈ before ++ y :: after, ∀ {b},
      bindPattern ((caseCall m o p names).scope (caseEnv o p (contextValue g.type i c vals)))
        (contextValue g.type i c vals) (pattern z) = some b →
      ∃ id, eval ((caseCall m o p names).scope (caseEnv o p (contextValue g.type i c vals)))
          (caseType g.type (name z)) = some (.cls id) ∧ Reaches o p g.type (contextKeys g.type c) (name z) ∧
        (contextAttrs g.type).lookup (.plain (name z)) = some (.cls id) := by
    intro z hz b hb
    obtain ⟨args, keywords, hpz⟩ := hpattern z
    rw [hpz] at hb
    obtain ⟨id, hid⟩ := exists_class_of_bindPattern hb
    have hmem : name z ∈ g.type.kindCases.map (·.ident) := hitems ▸ List.mem_map_of_mem hz
    obtain ⟨k, hk, hident'⟩ := List.mem_map.mp hmem
    obtain ⟨hr, hlookup⟩ :=
      h.reaches_of_eval hc (hident' ▸ h.loaded.undotted_cases k hk) hlen hident hp hvals hid
    exact ⟨id, hid, hr, hlookup⟩
  obtain ⟨id, hid, hry, hlookup⟩ := htype y (by simp) hbound
  obtain ⟨args, keywords, hpy⟩ := hpattern y
  have hinstance := (isInstance_of_bindPattern hid (hpy ▸ hbound)).1
  obtain ⟨hname, herror⟩ := h.isInstance_of_lookup hs hc hlookup hinstance
  obtain rfl : i = before.length := by
    have hnodup := h.apart.cases
    have hi : (g.type.kindCases.map (·.ident))[i]? = some (name y) := by
      rw [List.getElem?_map, hc, hname]
      rfl
    have hlt : i < (g.type.kindCases.map (·.ident)).length := (List.getElem?_eq_some_iff.mp hi).1
    have hj : (g.type.kindCases.map (·.ident))[before.length]? = some (name y) := by
      rw [← hitems]
      simp
    exact (List.getElem?_inj hlt hnodup).mp (hi.trans hj.symm)
  refine ⟨fun n hn => ?_, herror, y, bound, by simp, hbound, hvalue⟩
  rw [namesUpTo_eq hitems] at hn
  rcases List.mem_append.mp hn with hn | hn
  · obtain ⟨z, hz, rfl⟩ := List.mem_map.mp hn
    obtain ⟨-, -, hr, -⟩ := htype z (List.mem_append_left _ hz) (hbefore z hz)
    exact hr
  · obtain rfl := List.mem_singleton.mp hn
    exact hry

end

end

end Execution
end TypedErrors
