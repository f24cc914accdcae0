import Mathlib.Data.List.Basic
import Mathlib.Tactic.SplitIfs
import TypedErrors.Code.Render
import TypedErrors.Proofs.Code.Documentation

/-! # Suites

Indentation is all that parts one suite from another. The lines of a statement are laid out once, each with the number
of suites it stands in and, if it is a header, with the block that it opens (`Stmt.lines`); at every level they are
these lines, moved in. Behind a header stands the suite of its block, and a suite is empty for a selection without
cases alone. -/

namespace TypedErrors
namespace Code

/-- The line moved in by some levels; an empty one stays empty. -/
def moveIn (level : Nat) (line : String) : String := if line.isEmpty then "" else pad level ++ line

/-- Between the documentation of a class and its members. -/
def blankAbove (members : List Stmt) : List String := if members.isEmpty then [] else [""]

/-- Code with a header and a suite. -/
inductive Block where
  | select (subject : Expr) (cases : List Case)
  | case (pattern : Pattern) (body : List Stmt)
  | function (name : String) (params : List Param) (body : List Stmt) (returns : Option Expr) (doc : Option String)
  | cls (name : String) (bases : List Expr) (body : List Stmt) (doc : Option String)

namespace Block

def header : Block → String
  | .select subject _ => "match " ++ subject.render ++ ":"
  | .case pattern _ => "case " ++ pattern.render ++ ":"
  | .function name params _ returns _ =>
    let result := match returns with
      | some r => " -> " ++ r.render
      | none => ""
    "def " ++ name ++ "(" ++ commas (params.map Param.render) ++ ")" ++ result ++ ":"
  | .cls name bases _ _ =>
    let parents := commas (Expr.renderAll bases)
    "class " ++ name ++ (if parents.isEmpty then "" else "(" ++ parents ++ ")") ++ ":"

/-- The lines of the suite. -/
def suite (level : Nat) : Block → List String
  | .select _ cases => Case.renderAll level cases
  | .case _ body => Stmt.renderBlock level body
  | .function _ _ body _ doc =>
    match shownDoc doc with
    | none => Stmt.renderBlock level body
    | some d => Doc.render level d ++ Stmt.renderMore level none body
  | .cls _ _ body doc =>
    match shownDoc doc with
    | none => Stmt.renderBlock level body
    | some d => Doc.render level d ++ blankAbove body ++ Stmt.renderMore level none body

end Block

mutual

/-- The blocks of a statement, itself included, in the order of their headers. -/
def Stmt.blocks : Stmt → List Block
  | .select subject cases => .select subject cases :: Case.blocksAll cases
  | .function name params body returns _ doc => .function name params body returns doc :: Stmt.blocksAll body
  | .cls name bases body _ doc => .cls name bases body doc :: Stmt.blocksAll body
  | _ => []

def Stmt.blocksAll : List Stmt → List Block
  | [] => []
  | s :: ss => s.blocks ++ Stmt.blocksAll ss

def Case.blocksAll : List Case → List Block
  | [] => []
  | .mk pattern body :: cs => .case pattern body :: Stmt.blocksAll body ++ Case.blocksAll cs

end

/-! ### Lines -/

/-- A line of code: the number of suites it stands in, its text, and the block that it opens. -/
structure Line where
  depth : Nat
  text : String
  opens : Option Block

namespace Line

def plain (depth : Nat) (text : String) : Line := ⟨depth, text, none⟩

def header (depth : Nat) (b : Block) : Line := ⟨depth, b.header, some b⟩

def render (level : Nat) (l : Line) : String := moveIn (level + l.depth) l.text

end Line

def Doc.lines (depth : Nat) (text : String) : List Line := (Doc.render 0 text).map (Line.plain depth)

mutual

def Stmt.lines (depth : Nat) : Stmt → List Line
  | .select subject cases => .header depth (.select subject cases) :: Case.linesAll (depth + 1) cases
  | .function name params body returns decorators doc =>
    ((Expr.renderAll decorators).map ("@" ++ ·)).map (Line.plain depth) ++
      .header depth (.function name params body returns doc) ::
      match shownDoc doc with
      | none => Stmt.linesBlock (depth + 1) body
      | some d => Doc.lines (depth + 1) d ++ Stmt.linesMore (depth + 1) none body
  | .cls name bases body decorators doc =>
    ((Expr.renderAll decorators).map ("@" ++ ·)).map (Line.plain depth) ++
      .header depth (.cls name bases body doc) ::
      match shownDoc doc with
      | none => Stmt.linesBlock (depth + 1) body
      | some d =>
        Doc.lines (depth + 1) d ++ (blankAbove body).map (Line.plain (depth + 1)) ++
          Stmt.linesMore (depth + 1) none body
  | s => (s.render 0).map (Line.plain depth)

def Stmt.linesBlock (depth : Nat) : List Stmt → List Line
  | [] => [.plain depth "pass"]
  | s :: ss => s.lines depth ++ Stmt.linesMore depth (some s) ss

def Stmt.linesMore (depth : Nat) (previous : Option Stmt) : List Stmt → List Line
  | [] => []
  | s :: ss =>
    (match previous with
      | some p => (gap depth p s).map (Line.plain depth)
      | none => []) ++ s.lines depth ++ Stmt.linesMore depth (some s) ss

def Case.linesAll (depth : Nat) : List Case → List Line
  | [] => []
  | .mk pattern body :: cs =>
    .header depth (.case pattern body) :: Stmt.linesBlock (depth + 1) body ++ Case.linesAll depth cs

end

/-- The lines of the suite, as they are laid out. -/
def Block.lines (depth : Nat) : Block → List Line
  | .select _ cases => Case.linesAll depth cases
  | .case _ body => Stmt.linesBlock depth body
  | .function _ _ body _ doc =>
    match shownDoc doc with
    | none => Stmt.linesBlock depth body
    | some d => Doc.lines depth d ++ Stmt.linesMore depth none body
  | .cls _ _ body doc =>
    match shownDoc doc with
    | none => Stmt.linesBlock depth body
    | some d => Doc.lines depth d ++ (blankAbove body).map (Line.plain depth) ++ Stmt.linesMore depth none body

variable {name : String} {params : List Param} {bases decorators : List Expr} {body : List Stmt} {returns : Option Expr}
  {doc : Option String} {subject : Expr} {pattern : Pattern}

theorem Stmt.lines_function (depth : Nat) : (Stmt.function name params body returns decorators doc).lines depth =
    ((Expr.renderAll decorators).map ("@" ++ ·)).map (Line.plain depth) ++
      .header depth (.function name params body returns doc) ::
        (Block.function name params body returns doc).lines (depth + 1) := rfl

theorem Stmt.lines_cls (depth : Nat) : (Stmt.cls name bases body decorators doc).lines depth =
    ((Expr.renderAll decorators).map ("@" ++ ·)).map (Line.plain depth) ++
      .header depth (.cls name bases body doc) :: (Block.cls name bases body doc).lines (depth + 1) := rfl

/-! ### Moving lines in -/

variable {line : String} {level depth : Nat}

theorem pad_zero : pad 0 = "" := rfl

theorem pad_add (n k : Nat) : pad (n + k) = pad n ++ pad k := by
  rw [pad, pad, pad, ← String.ofList_append, List.replicate_append_replicate, Nat.mul_add]

theorem moveIn_of_ne (h : line ≠ "") : moveIn level line = pad level ++ line :=
  if_neg fun hempty => h (String.isEmpty_iff.mp hempty)

theorem moveIn_moveIn (n k : Nat) (line : String) : moveIn n (moveIn k line) = moveIn (n + k) line := by
  by_cases h : line = ""
  · subst h
    rfl
  · have hmoved : pad k ++ line ≠ "" := fun hempty => h (String.append_eq_empty_iff.mp hempty).2
    rw [moveIn_of_ne h, moveIn_of_ne h, moveIn_of_ne hmoved, pad_add, String.append_assoc]

theorem Line.moveIn_render (n level : Nat) (l : Line) : moveIn n (l.render level) = l.render (n + level) := by
  rw [Line.render, Line.render, moveIn_moveIn, Nat.add_assoc]

theorem Line.render_of_ne {l : Line} (h : l.text ≠ "") : l.render level = pad (level + l.depth) ++ l.text :=
  moveIn_of_ne h

theorem Line.map_render_plain (ts : List String) :
    (ts.map (Line.plain depth)).map (Line.render level) = ts.map (moveIn (level + depth)) := by
  rw [List.map_map]
  rfl

/-! ### First lines -/

/-- The lines start with one that stands at the level and is not empty. -/
def StartsAt (level : Nat) (lines : List String) : Prop :=
  ∃ text more, text ≠ "" ∧ lines = (pad level ++ text) :: more

theorem StartsAt.append {lines : List String} (h : StartsAt level lines) (more : List String) :
    StartsAt level (lines ++ more) := by
  obtain ⟨text, rest, htext, rfl⟩ := h
  exact ⟨text, rest ++ more, htext, rfl⟩

theorem Block.header_ne (b : Block) : b.header ≠ "" := by
  cases b <;> simp [Block.header]

/-- A statement without a block is one line, at whatever level. -/
theorem Stmt.exists_text {s : Stmt} (h : s.blocks = []) :
    ∃ text, text ≠ "" ∧ ∀ level, s.render level = [pad level ++ text] := by
  cases s with
  | pass => exact ⟨"pass", by decide, fun _ => rfl⟩
  | ret value =>
    cases value with
    | none => exact ⟨"return", by decide, fun _ => rfl⟩
    | some x => exact ⟨"return " ++ x.render, by simp, fun _ => by rw [Stmt.render, String.append_assoc]⟩
  | raise x => exact ⟨"raise " ++ x.render, by simp, fun _ => by rw [Stmt.render, String.append_assoc]⟩
  | assign target value =>
    exact ⟨target.render ++ " = " ++ value.render, by simp, fun _ => by simp only [Stmt.render, String.append_assoc]⟩
  | annotate target type value =>
    cases value with
    | none => exact ⟨target ++ ": " ++ type.render, by simp, fun _ => by simp only [Stmt.render, String.append_assoc]⟩
    | some x =>
      exact ⟨target ++ ": " ++ type.render ++ " = " ++ x.render, by simp,
        fun _ => by simp only [Stmt.render, String.append_assoc]⟩
  | delete targets =>
    exact ⟨"del " ++ commas (Expr.renderAll targets), by simp, fun _ => by rw [Stmt.render, String.append_assoc]⟩
  | importModule m alias? =>
    cases alias? with
    | none => exact ⟨"import " ++ m, by simp, fun _ => by rw [Stmt.render, String.append_assoc]⟩
    | some a =>
      exact ⟨"import " ++ m ++ " as " ++ a, by simp, fun _ => by simp only [Stmt.render, String.append_assoc]⟩
  | importFrom m names =>
    exact ⟨"from " ++ m ++ " import " ++ commas (names.map renderImportName), by simp,
      fun _ => by simp only [Stmt.render, String.append_assoc]⟩
  | select subject cases => cases h
  | function name params body returns decorators doc => cases h
  | cls name bases body decorators doc => cases h

theorem Block.render_header (b : Block) : (Line.header depth b).render level = pad (level + depth) ++ b.header :=
  moveIn_of_ne b.header_ne

/-- Above the header stand the decorators, one a line. -/
theorem startsAt_decorated (decorators : List String) {header : String} (h : header ≠ "") (suite : List String) :
    StartsAt level (decorators.map (fun d => pad level ++ "@" ++ d) ++ (pad level ++ header) :: suite) := by
  cases decorators with
  | nil => exact ⟨header, suite, h, rfl⟩
  | cons d ds =>
    refine ⟨"@" ++ d, ds.map (fun d => pad level ++ "@" ++ d) ++ (pad level ++ header) :: suite, by simp, ?_⟩
    rw [List.map_cons, List.cons_append, String.append_assoc]

theorem Stmt.render_function (level : Nat) : (Stmt.function name params body returns decorators doc).render level =
    (Expr.renderAll decorators).map (fun d => pad level ++ "@" ++ d) ++
      (pad level ++ (Block.function name params body returns doc).header) ::
        (Block.function name params body returns doc).suite (level + 1) := by
  simp only [Stmt.render, Block.header, Block.suite]
  cases returns <;> cases shownDoc doc <;> simp only [String.append_assoc]

theorem Stmt.render_cls (level : Nat) : (Stmt.cls name bases body decorators doc).render level =
    (Expr.renderAll decorators).map (fun d => pad level ++ "@" ++ d) ++
      (pad level ++ (Block.cls name bases body doc).header) :: (Block.cls name bases body doc).suite (level + 1) := by
  simp only [Stmt.render, Block.header, Block.suite, blankAbove]
  cases shownDoc doc <;> simp only [String.append_assoc]

theorem Stmt.render_select (level : Nat) (subject : Expr) (cases : List Case) :
    (Stmt.select subject cases).render level =
      (pad level ++ (Block.select subject cases).header) :: (Block.select subject cases).suite (level + 1) := by
  simp only [Stmt.render, Block.header, Block.suite, String.append_assoc]

theorem Case.renderAll_cons (level : Nat) (pattern : Pattern) (body : List Stmt) (cs : List Case) :
    Case.renderAll level (.mk pattern body :: cs) =
      (pad level ++ (Block.case pattern body).header) :: (Block.case pattern body).suite (level + 1) ++
        Case.renderAll level cs := by
  simp only [Case.renderAll, Block.header, Block.suite, String.append_assoc]

theorem Stmt.startsAt (s : Stmt) (level : Nat) : StartsAt level (s.render level) := by
  cases hs : s with
  | select subject cases => exact ⟨_, _, Block.header_ne _, Stmt.render_select level subject cases⟩
  | function name params body returns decorators doc =>
    rw [Stmt.render_function]
    exact startsAt_decorated _ (Block.header_ne _) _
  | cls name bases body decorators doc =>
    rw [Stmt.render_cls]
    exact startsAt_decorated _ (Block.header_ne _) _
  | _ =>
    obtain ⟨text, htext, hrender⟩ := Stmt.exists_text (s := s) (by rw [hs]; rfl)
    rw [← hs]
    exact ⟨text, [], htext, hrender level⟩

/-- The quotes that open a documentation literal, and its first line. -/
theorem Doc.moveIn_first (level : Nat) (l : List Char) (more : String) :
    moveIn level (pad 0 ++ "\"\"\"" ++ String.ofList l ++ more) =
      pad level ++ "\"\"\"" ++ String.ofList l ++ more := by
  rw [pad_zero, String.empty_append, moveIn_of_ne (by simp)]
  simp only [String.append_assoc]

theorem Doc.map_moveIn_render (level : Nat) (text : String) :
    (Doc.render 0 text).map (moveIn level) = Doc.render level text := by
  have hmore (l : List Char) : moveIn level (if l.isEmpty then "" else pad 0 ++ String.ofList l) =
      if l.isEmpty then "" else pad level ++ String.ofList l := by
    cases l with
    | nil => rfl
    | cons c cs =>
      have hne : String.ofList (c :: cs) ≠ "" := by simp
      exact moveIn_of_ne hne
  obtain ⟨l, ls, h, -⟩ := indent_eq 0 (escape text.toList)
  rw [Doc.render, Doc.render, splitLines_eq, h]
  cases ls with
  | nil => exact congrArg (fun line => [line]) (moveIn_first level l "\"\"\"")
  | cons l' ls =>
    have hfirst := moveIn_first level l ""
    rw [String.append_empty, String.append_empty] at hfirst
    dsimp only
    rw [List.map_append, List.map_cons, List.map_map, hfirst, List.map_singleton]
    congr 2
    exact List.map_congr_left fun l _ => hmore l

theorem Doc.startsAt (level : Nat) (text : String) : StartsAt level (Doc.render level text) := by
  obtain ⟨l, ls, h, -⟩ := indent_eq level (escape text.toList)
  rw [Doc.render, splitLines_eq, h]
  cases ls with
  | nil => exact ⟨"\"\"\"" ++ String.ofList l ++ "\"\"\"", [], by simp, by simp only [String.append_assoc]⟩
  | cons l' ls => exact ⟨"\"\"\"" ++ String.ofList l, _, by simp, by rw [← String.append_assoc]; rfl⟩

theorem Stmt.startsAt_block (level : Nat) (body : List Stmt) : StartsAt level (Stmt.renderBlock level body) := by
  cases body with
  | nil => exact ⟨"pass", [], by decide, rfl⟩
  | cons s ss => exact (s.startsAt level).append _

/-- Only a selection without cases has an empty suite. -/
theorem Block.startsAt_suite {b : Block} (h : ∀ subject, b ≠ .select subject []) (level : Nat) :
    StartsAt level (b.suite level) := by
  cases b with
  | select subject cases =>
    cases cases with
    | nil => exact absurd rfl (h subject)
    | cons c cs =>
      obtain ⟨pattern, body⟩ := c
      exact ⟨_, _, Block.header_ne _, Case.renderAll_cons level pattern body cs⟩
  | case pattern body => exact Stmt.startsAt_block level body
  | function name params body returns doc =>
    rw [Block.suite]
    cases shownDoc doc with
    | none => exact Stmt.startsAt_block level body
    | some d => exact (Doc.startsAt level d).append _
  | cls name bases body doc =>
    rw [Block.suite]
    cases shownDoc doc with
    | none => exact Stmt.startsAt_block level body
    | some d => exact ((Doc.startsAt level d).append _).append _

/-! ### The lines are those that are rendered -/

theorem Doc.map_render_lines (level depth : Nat) (text : String) :
    (Doc.lines depth text).map (Line.render level) = Doc.render (level + depth) text := by
  rw [Doc.lines, Line.map_render_plain, Doc.map_moveIn_render]

theorem Line.map_render_decorators (level depth : Nat) (ds : List String) :
    ((ds.map ("@" ++ ·)).map (Line.plain depth)).map (Line.render level) =
      ds.map fun d => pad (level + depth) ++ "@" ++ d := by
  rw [Line.map_render_plain, List.map_map]
  refine List.map_congr_left fun d _ => ?_
  rw [Function.comp_apply, moveIn_of_ne (by simp), String.append_assoc]

theorem map_moveIn_blankAbove (level : Nat) (members : List Stmt) :
    (blankAbove members).map (moveIn level) = blankAbove members := by
  rw [blankAbove]
  cases members.isEmpty with
  | true => rfl
  | false => rfl

theorem Line.map_render_gap (level depth : Nat) (p s : Stmt) :
    ((gap (depth + 1) p s).map (Line.plain (depth + 1))).map (Line.render level) = gap (level + (depth + 1)) p s := by
  rw [Line.map_render_plain, gap, gap]
  cases p.isDefinition || s.isDefinition with
  | true => rfl
  | false => rfl

theorem Stmt.map_render_plain (level depth : Nat) {s : Stmt} (h : s.blocks = []) :
    ((s.render 0).map (Line.plain depth)).map (Line.render level) = s.render (level + depth) := by
  obtain ⟨text, htext, hrender⟩ := Stmt.exists_text h
  rw [hrender, hrender, Line.map_render_plain, pad_zero, String.empty_append, List.map_singleton, moveIn_of_ne htext]

section Documented

variable (hblock : (Stmt.linesBlock (depth + 1) body).map (Line.render level) =
    Stmt.renderBlock (level + (depth + 1)) body)
  (hmore : (Stmt.linesMore (depth + 1) none body).map (Line.render level) =
    Stmt.renderMore (level + (depth + 1)) none body)
include hblock hmore

theorem Block.map_render_function : ((Block.function name params body returns doc).lines (depth + 1)).map
    (Line.render level) = (Block.function name params body returns doc).suite (level + (depth + 1)) := by
  rw [Block.lines, Block.suite]
  cases shownDoc doc with
  | none => exact hblock
  | some d =>
    dsimp only
    rw [List.map_append, Doc.map_render_lines, hmore]

theorem Block.map_render_cls : ((Block.cls name bases body doc).lines (depth + 1)).map (Line.render level) =
    (Block.cls name bases body doc).suite (level + (depth + 1)) := by
  rw [Block.lines, Block.suite]
  cases shownDoc doc with
  | none => exact hblock
  | some d =>
    dsimp only
    rw [List.map_append, List.map_append, Doc.map_render_lines, Line.map_render_plain, map_moveIn_blankAbove, hmore]

end Documented

mutual

theorem Stmt.map_render_lines (level depth : Nat) :
    ∀ s : Stmt, (s.lines depth).map (Line.render level) = s.render (level + depth)
  | .pass | .ret _ | .raise _ | .assign .. | .annotate .. | .delete _ | .importModule .. | .importFrom .. =>
    Stmt.map_render_plain level depth rfl
  | .select subject cases => by
    rw [Stmt.lines, Stmt.render_select, List.map_cons, Block.render_header, Case.map_render_linesAll level depth cases]
    rfl
  | .function _ _ body _ _ _ => by
    rw [Stmt.lines_function, Stmt.render_function, List.map_append, Line.map_render_decorators, List.map_cons,
      Block.render_header, Block.map_render_function (Stmt.map_render_linesBlock level depth body)
        (Stmt.map_render_linesMore level depth none body), Nat.add_assoc]
  | .cls _ _ body _ _ => by
    rw [Stmt.lines_cls, Stmt.render_cls, List.map_append, Line.map_render_decorators, List.map_cons,
      Block.render_header, Block.map_render_cls (Stmt.map_render_linesBlock level depth body)
        (Stmt.map_render_linesMore level depth none body), Nat.add_assoc]

/-- Within a suite the gaps are the same at every level; at the outermost one they are longer. -/
theorem Stmt.map_render_linesBlock (level depth : Nat) : ∀ ss : List Stmt,
    (Stmt.linesBlock (depth + 1) ss).map (Line.render level) = Stmt.renderBlock (level + (depth + 1)) ss
  | [] => rfl
  | s :: ss => by
    rw [Stmt.linesBlock, Stmt.renderBlock, List.map_append, Stmt.map_render_lines level (depth + 1) s,
      Stmt.map_render_linesMore level depth (some s) ss]

theorem Stmt.map_render_linesMore (level depth : Nat) (previous : Option Stmt) : ∀ ss : List Stmt,
    (Stmt.linesMore (depth + 1) previous ss).map (Line.render level) = Stmt.renderMore (level + (depth + 1)) previous ss
  | [] => rfl
  | s :: ss => by
    cases previous with
    | none =>
      rw [Stmt.linesMore, Stmt.renderMore, List.nil_append, List.nil_append, List.map_append,
        Stmt.map_render_lines level (depth + 1) s, Stmt.map_render_linesMore level depth (some s) ss]
    | some p =>
      rw [Stmt.linesMore, Stmt.renderMore, List.map_append, List.map_append, Line.map_render_gap,
        Stmt.map_render_lines level (depth + 1) s, Stmt.map_render_linesMore level depth (some s) ss]

theorem Case.map_render_linesAll (level depth : Nat) : ∀ cs : List Case,
    (Case.linesAll (depth + 1) cs).map (Line.render level) = Case.renderAll (level + (depth + 1)) cs
  | [] => rfl
  | .mk pattern body :: cs => by
    rw [Case.linesAll, Case.renderAll_cons, List.cons_append, List.map_cons, List.map_append, Block.render_header,
      Stmt.map_render_linesBlock level (depth + 1) body, Case.map_render_linesAll level depth cs]
    rfl

end

/-! ### The headers are those of the blocks -/

theorem Line.filterMap_opens_plain (ts : List String) : (ts.map (Line.plain depth)).filterMap Line.opens = [] := by
  rw [List.filterMap_map]
  exact List.filterMap_none _

theorem Line.filterMap_opens_header (b : Block) (ls : List Line) :
    (Line.header depth b :: ls).filterMap Line.opens = b :: ls.filterMap Line.opens := rfl

section Documented

variable (hblock : (Stmt.linesBlock depth body).filterMap Line.opens = Stmt.blocksAll body)
  (hmore : (Stmt.linesMore depth none body).filterMap Line.opens = Stmt.blocksAll body)
include hblock hmore

theorem Block.filterMap_opens_function :
    ((Block.function name params body returns doc).lines depth).filterMap Line.opens = Stmt.blocksAll body := by
  rw [Block.lines]
  cases shownDoc doc with
  | none => exact hblock
  | some d =>
    dsimp only
    rw [List.filterMap_append, Doc.lines, Line.filterMap_opens_plain, hmore, List.nil_append]

theorem Block.filterMap_opens_cls :
    ((Block.cls name bases body doc).lines depth).filterMap Line.opens = Stmt.blocksAll body := by
  rw [Block.lines]
  cases shownDoc doc with
  | none => exact hblock
  | some d =>
    dsimp only
    rw [List.filterMap_append, List.filterMap_append, Doc.lines, Line.filterMap_opens_plain,
      Line.filterMap_opens_plain, hmore, List.append_nil, List.nil_append]

end Documented

mutual

theorem Stmt.filterMap_opens_lines (depth : Nat) : ∀ s : Stmt, (s.lines depth).filterMap Line.opens = s.blocks
  | .pass | .ret _ | .raise _ | .assign .. | .annotate .. | .delete _ | .importModule .. | .importFrom .. =>
    Line.filterMap_opens_plain _
  | .select subject cases => by
    rw [Stmt.lines, Line.filterMap_opens_header, Case.filterMap_opens_linesAll (depth + 1) cases]
    rfl
  | .function _ _ body _ _ _ => by
    rw [Stmt.lines_function, List.filterMap_append, Line.filterMap_opens_plain, Line.filterMap_opens_header,
      Block.filterMap_opens_function (Stmt.filterMap_opens_linesBlock (depth + 1) body)
        (Stmt.filterMap_opens_linesMore (depth + 1) none body)]
    rfl
  | .cls _ _ body _ _ => by
    rw [Stmt.lines_cls, List.filterMap_append, Line.filterMap_opens_plain, Line.filterMap_opens_header,
      Block.filterMap_opens_cls (Stmt.filterMap_opens_linesBlock (depth + 1) body)
        (Stmt.filterMap_opens_linesMore (depth + 1) none body)]
    rfl

theorem Stmt.filterMap_opens_linesBlock (depth : Nat) : ∀ ss : List Stmt,
    (Stmt.linesBlock depth ss).filterMap Line.opens = Stmt.blocksAll ss
  | [] => rfl
  | s :: ss => by
    rw [Stmt.linesBlock, List.filterMap_append, Stmt.filterMap_opens_lines depth s,
      Stmt.filterMap_opens_linesMore depth (some s) ss]
    rfl

theorem Stmt.filterMap_opens_linesMore (depth : Nat) (previous : Option Stmt) : ∀ ss : List Stmt,
    (Stmt.linesMore depth previous ss).filterMap Line.opens = Stmt.blocksAll ss
  | [] => rfl
  | s :: ss => by
    cases previous with
    | none =>
      rw [Stmt.linesMore, List.nil_append, List.filterMap_append, Stmt.filterMap_opens_lines depth s,
        Stmt.filterMap_opens_linesMore depth (some s) ss]
      rfl
    | some p =>
      rw [Stmt.linesMore, List.filterMap_append, List.filterMap_append, Line.filterMap_opens_plain,
        Stmt.filterMap_opens_lines depth s, Stmt.filterMap_opens_linesMore depth (some s) ss]
      rfl

theorem Case.filterMap_opens_linesAll (depth : Nat) : ∀ cs : List Case,
    (Case.linesAll depth cs).filterMap Line.opens = Case.blocksAll cs
  | [] => rfl
  | .mk pattern body :: cs => by
    rw [Case.linesAll, List.cons_append, Line.filterMap_opens_header, List.filterMap_append,
      Stmt.filterMap_opens_linesBlock (depth + 1) body, Case.filterMap_opens_linesAll depth cs]
    rfl

end

/-! ### Behind a header -/

/-- Behind each header stands the suite of its block, one level further in. -/
def Opened (level : Nat) (ls : List Line) : Prop :=
  ∀ front l back b, ls = front ++ l :: back → l.opens = some b →
    l.text = b.header ∧ ∃ rest, back.map (Line.render level) = b.suite (level + (l.depth + 1)) ++ rest

namespace Opened

variable {ls ls' : List Line} {b : Block}

theorem of_plain (h : ∀ l ∈ ls, l.opens = none) : Opened level ls := by
  rintro front l back b rfl hb
  rw [h l (by simp)] at hb
  cases hb

theorem nil : Opened level [] := of_plain fun _ hl => nomatch hl

theorem append (h : Opened level ls) (h' : Opened level ls') : Opened level (ls ++ ls') := by
  intro front l back b hls hb
  rcases List.append_eq_append_iff.mp hls with ⟨mid, rfl, hls'⟩ | ⟨mid, rfl, hmid⟩
  · exact h' mid l back b hls' hb
  · cases mid with
    | nil => exact h' [] l back b hmid.symm hb
    | cons l' mid =>
      obtain ⟨rfl, rfl⟩ := List.cons.inj hmid
      obtain ⟨htext, rest, hrest⟩ := h front l mid b rfl hb
      refine ⟨htext, rest ++ ls'.map (Line.render level), ?_⟩
      rw [List.append_eq, List.map_append, hrest, List.append_assoc]

theorem header (hsuite : ls.map (Line.render level) = b.suite (level + (depth + 1))) (h : Opened level ls) :
    Opened level (.header depth b :: ls) := by
  intro front l back b' hls hb
  cases front with
  | nil =>
    obtain ⟨rfl, rfl⟩ := List.cons.inj hls
    obtain rfl := Option.some.inj hb
    exact ⟨rfl, [], by rw [List.append_nil, hsuite]; rfl⟩
  | cons l' front => exact h front l back b' (List.cons.inj hls).2 hb

theorem plain (ts : List String) : Opened level (ts.map (Line.plain depth)) :=
  of_plain fun l hl => by
    obtain ⟨t, -, rfl⟩ := List.mem_map.mp hl
    rfl

end Opened

section Documented

variable (hblock : Opened level (Stmt.linesBlock depth body)) (hmore : Opened level (Stmt.linesMore depth none body))
include hblock hmore

theorem Block.opened_function : Opened level ((Block.function name params body returns doc).lines depth) := by
  rw [Block.lines]
  cases shownDoc doc with
  | none => exact hblock
  | some d => exact (Opened.plain _).append hmore

theorem Block.opened_cls : Opened level ((Block.cls name bases body doc).lines depth) := by
  rw [Block.lines]
  cases shownDoc doc with
  | none => exact hblock
  | some d => exact ((Opened.plain _).append (Opened.plain _)).append hmore

end Documented

mutual

theorem Stmt.opened_lines (level depth : Nat) : ∀ s : Stmt, Opened level (s.lines depth)
  | .pass | .ret _ | .raise _ | .assign .. | .annotate .. | .delete _ | .importModule .. | .importFrom .. =>
    Opened.plain _
  | .select _ cases =>
    Opened.header (Case.map_render_linesAll level depth cases) (Case.opened_linesAll level (depth + 1) cases)
  | .function _ _ body _ _ _ => by
    have hblock := Stmt.map_render_linesBlock level depth body
    have hmore := Stmt.map_render_linesMore level depth none body
    have hopened := Stmt.opened_linesBlock level (depth + 1) body
    have hopenedMore := Stmt.opened_linesMore level (depth + 1) none body
    rw [Stmt.lines_function]
    exact (Opened.plain _).append
      (Opened.header (Block.map_render_function hblock hmore) (Block.opened_function hopened hopenedMore))
  | .cls _ _ body _ _ => by
    have hblock := Stmt.map_render_linesBlock level depth body
    have hmore := Stmt.map_render_linesMore level depth none body
    have hopened := Stmt.opened_linesBlock level (depth + 1) body
    have hopenedMore := Stmt.opened_linesMore level (depth + 1) none body
    rw [Stmt.lines_cls]
    exact (Opened.plain _).append
      (Opened.header (Block.map_render_cls hblock hmore) (Block.opened_cls hopened hopenedMore))

theorem Stmt.opened_linesBlock (level depth : Nat) : ∀ ss : List Stmt, Opened level (Stmt.linesBlock depth ss)
  | [] => Opened.plain ["pass"]
  | s :: ss => (Stmt.opened_lines level depth s).append (Stmt.opened_linesMore level depth (some s) ss)

theorem Stmt.opened_linesMore (level depth : Nat) (previous : Option Stmt) :
    ∀ ss : List Stmt, Opened level (Stmt.linesMore depth previous ss)
  | [] => Opened.nil
  | s :: ss => by
    have hlines := (Stmt.opened_lines level depth s).append (Stmt.opened_linesMore level depth (some s) ss)
    cases previous with
    | none => exact hlines
    | some p =>
      rw [Stmt.linesMore, List.append_assoc]
      exact (Opened.plain _).append hlines

theorem Case.opened_linesAll (level depth : Nat) : ∀ cs : List Case, Opened level (Case.linesAll depth cs)
  | [] => Opened.nil
  | .mk _ body :: cs =>
    (Opened.header (Stmt.map_render_linesBlock level depth body) (Stmt.opened_linesBlock level (depth + 1) body)).append
      (Case.opened_linesAll level depth cs)

end

/-- Moved in by some levels, a statement is rendered as at the outermost one with each line moved in that is not empty.
Its headers are those of its blocks, in their order, and right behind each stands the suite of the block, one level
further in and not empty, provided that every selection has a case. -/
theorem Stmt.render_suites (s : Stmt) (h : ∀ subject, Block.select subject [] ∉ s.blocks) (n : Nat) :
    s.render n = (s.render 0).map (moveIn n) ∧ s.render n = (s.lines 0).map (Line.render n) ∧
      (s.lines 0).filterMap Line.opens = s.blocks ∧
      ∀ front l back b, s.lines 0 = front ++ l :: back → l.opens = some b →
        ∃ text more rest, text ≠ "" ∧
          b.suite (n + (l.depth + 1)) = (pad (n + (l.depth + 1)) ++ text) :: more ∧
          s.render n = front.map (Line.render n) ++ (pad (n + l.depth) ++ b.header) ::
            (b.suite (n + (l.depth + 1)) ++ rest) := by
  have hlines (level : Nat) : s.render level = (s.lines 0).map (Line.render level) := (s.map_render_lines level 0).symm
  have hopens := s.filterMap_opens_lines 0
  refine ⟨?_, hlines n, hopens, ?_⟩
  · rw [hlines n, hlines 0, List.map_map]
    exact List.map_congr_left fun l _ => (l.moveIn_render n 0).symm
  · intro front l back b hs hb
    have hmem : b ∈ s.blocks := by
      rw [← hopens, hs]
      exact List.mem_filterMap.mpr ⟨l, by simp, hb⟩
    have hselect (subject : Expr) : b ≠ .select subject [] := fun hb => h subject (hb ▸ hmem)
    obtain ⟨htext, rest, hback⟩ := s.opened_lines n 0 front l back b hs hb
    obtain ⟨text, more, hne, hsuite⟩ := Block.startsAt_suite hselect (n + (l.depth + 1))
    refine ⟨text, more, rest, hne, hsuite, ?_⟩
    rw [hlines n, hs, List.map_append, List.map_cons, hback, Line.render_of_ne (htext ▸ b.header_ne), htext]

/-- A decorated class with documentation in two lines and a method, in which a case passes. -/
def documentedClass : Stmt :=
  .cls "A" [.name "B"] [.function "f" [] [.select (.name "x") [.mk (.capture none) []]] none [] none] [.name "final"]
    (some "One.\n\nTwo.")

theorem documentedClass_suites : (∀ subject, Block.select subject [] ∉ documentedClass.blocks) ∧
    (documentedClass.render 0).map (moveIn 1) = ["    @final", "    class A(B):", "        \"\"\"One.", "",
      "        Two.", "        \"\"\"", "", "        def f():", "            match x:", "                case _:",
      "                    pass"] ∧
    ∃ text more rest, text ≠ "" ∧ (Block.case (.capture none) []).suite 5 = (pad 5 ++ text) :: more ∧
      (documentedClass.render 1).drop 9 =
        (pad 4 ++ "case _:") :: ((Block.case (.capture none) []).suite 5 ++ rest) := by
  have hcases (subject : Expr) : Block.select subject [] ∉ documentedClass.blocks := by
    simp [documentedClass, Stmt.blocks, Stmt.blocksAll, Case.blocksAll]
  obtain ⟨hmoved, -, -, hsuites⟩ := documentedClass.render_suites hcases 1
  obtain ⟨text, more, rest, htext, hsuite, hrender⟩ :=
    hsuites ((documentedClass.lines 0).take 9) (.header 3 (.case (.capture none) [])) _ _ rfl rfl
  refine ⟨hcases, hmoved.symm.trans rfl, text, more, rest, htext, hsuite, ?_⟩
  rw [hrender]
  rfl

end Code
end TypedErrors
