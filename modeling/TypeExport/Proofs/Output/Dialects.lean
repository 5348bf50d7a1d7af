import TypeExport.Output.Render

/-!
# The two dialects

The same units are written in TypeScript and in Flow.  A type is written alike
unless the global nullable type stands in it somewhere (`TypeExpr.render_agree`),
and a declaration unless it also gives literals a type
(`Declaration.lines_agree`).  Of a unit of such declarations the two texts differ
in the comment at the top alone (`Units.code_agree`).

The text of a unit is made of lines, and its last line ends with a character that
is no white space, whatever names stand in it: with the end of a comment, an import
or a declaration (`Units.lastSolid_lines`).  So nothing is cut off the lines of a unit
(`Units.code_eq_join`), and there is nothing at the end of its text but one newline
(`Units.endsOnce_code`).
-/

namespace TypeExport

/-! ## Types -/

namespace TypeExpr

mutual

/-- Whether the global nullable type stands somewhere in a type. -/
def hasNullable : TypeExpr → Bool
  | .reference _ | .literal _ => false
  | .generic base arguments => base.hasNullable || anyNullable arguments
  | .array element => element.hasNullable
  | .orNull inner => inner.hasNullable
  | .nullable _ => true
  | .dictionary key value => key.hasNullable || value.hasNullable
  | .union items => anyNullable items

/-- Whether the global nullable type stands somewhere in one of several types. -/
def anyNullable : List TypeExpr → Bool
  | [] => false
  | e :: es => e.hasNullable || anyNullable es

end

/-- Only the global nullable type is put in parentheses in one dialect alone. -/
theorem isCompound_agree {e : TypeExpr} (h : e.hasNullable = false) (d d' : Dialect) :
    d'.isCompound e = d.isCompound e := by
  cases e with
  | nullable => simp [hasNullable] at h
  | _ => rfl

mutual

/-- A type without the global nullable type is written alike in all dialects. -/
theorem render_agree (d d' : Dialect) :
    ∀ {e : TypeExpr}, e.hasNullable = false → e.render d' = e.render d
  | .reference _, _ => rfl
  | .literal _, _ => rfl
  | .generic base arguments, h => by
    simp only [hasNullable, Bool.or_eq_false_iff] at h
    simp only [render, render_agree d d' h.1, renderAll_agree d d' h.2]
  | .array element, h => by
    simp only [hasNullable] at h
    simp only [render, render_agree d d' h, isCompound_agree h d d']
  | .orNull inner, h => by
    simp only [hasNullable] at h
    simp only [render, render_agree d d' h]
  | .nullable inner, h => by simp [hasNullable] at h
  | .dictionary key value, h => by
    simp only [hasNullable, Bool.or_eq_false_iff] at h
    simp only [render, render_agree d d' h.1, render_agree d d' h.2]
  | .union items, h => by
    simp only [hasNullable] at h
    simp only [render, renderAll_agree d d' h]

theorem renderAll_agree (d d' : Dialect) :
    ∀ {es : List TypeExpr}, anyNullable es = false → renderAll d' es = renderAll d es
  | [], _ => rfl
  | e :: es, h => by
    simp only [anyNullable, Bool.or_eq_false_iff] at h
    simp only [renderAll, render_agree d d' h.1, renderAll_agree d d' h.2]

end

end TypeExpr

/-! ## Declarations -/

/-- Whether a declaration is the same text in all dialects: it gives no literals a
type, and the global nullable type does not stand in it. -/
def Declaration.isShared : Declaration → Bool
  | .object _ _ members => members.all (!·.type.hasNullable)
  | .enumeration .. => true
  | .fixedStrings .. => false

/-- Whether all declarations of a unit are the same text in all dialects. -/
def OutputUnit.isShared (unit : OutputUnit) : Bool := unit.declarations.toList.all (·.isShared)

theorem Declaration.lines_agree (d d' : Dialect) {D : Declaration} (h : D.isShared = true) :
    D.lines d' = D.lines d := by
  cases D with
  | object name parameters members =>
    have hmembers : members.map (·.line d') = members.map (·.line d) := by
      apply List.map_congr_left
      intro m hm
      have hm' : m.type.hasNullable = false := by simpa using List.all_eq_true.1 h m hm
      simp only [MemberDeclaration.line, TypeExpr.render_agree d d' hm']
    simp only [lines, hmembers]
  | enumeration => rfl
  | fixedStrings => cases h

/-! ## Ends of texts -/

/-- Whether a text ends with a character that is no white space. -/
def EndsSolid (text : String) : Prop :=
  ∃ c ∈ text.toList.getLast?, isWhiteSpace c = false

/-- Whether a text ends with one newline, and with no other white space in front of
it. -/
def EndsOnce (text : String) : Prop :=
  ∃ before c, text.toList = before ++ [c, '\n'] ∧ isWhiteSpace c = false

/-- There is nothing to cut off a text that ends with one newline. -/
theorem EndsOnce.finish_eq {text : String} (h : EndsOnce text) : finish text = text := by
  obtain ⟨before, c, htext, hsolid⟩ := h
  have hnewline : isWhiteSpace '\n' = true := by decide
  rw [finish, htext]
  have hcut : ((before ++ [c, '\n']).reverse.dropWhile isWhiteSpace).reverse = before ++ [c] := by
    simp [hnewline, hsolid]
  rw [hcut, List.append_assoc]
  exact (congrArg String.ofList htext.symm).trans String.ofList_toList

theorem EndsSolid.append {text : String} (h : EndsSolid text) (before : String) :
    EndsSolid (before ++ text) := by
  obtain ⟨c, hc, hsolid⟩ := h
  refine ⟨c, ?_, hsolid⟩
  rw [Option.mem_def] at hc ⊢
  simp [hc]

theorem EndsSolid.endsOnce {text : String} (h : EndsSolid text) (before : String) :
    EndsOnce (before ++ (text ++ "\n")) := by
  obtain ⟨c, hc, hsolid⟩ := h
  obtain ⟨cs, hcs⟩ := List.getLast?_eq_some_iff.1 hc
  exact ⟨before.toList ++ cs, c, by simp [hcs], hsolid⟩

/-- Whether the last of several lines ends with a character that is no white
space. -/
def LastSolid (ls : List String) : Prop := ∃ line ∈ ls.getLast?, EndsSolid line

namespace LastSolid

variable {ls ls' : List String} {line : String}

theorem singleton (h : EndsSolid line) : LastSolid [line] := ⟨line, rfl, h⟩

theorem append (h : LastSolid ls') (ls : List String) : LastSolid (ls ++ ls') := by
  obtain ⟨line, hline, hsolid⟩ := h
  refine ⟨line, ?_, hsolid⟩
  rw [Option.mem_def] at hline ⊢
  simp [hline]

theorem cons (h : LastSolid ls) (line : String) : LastSolid (line :: ls) := h.append [line]

theorem map {α : Type} {f : α → String} {as : List α} (hf : ∀ a, EndsSolid (f a)) (h : as ≠ []) :
    LastSolid (as.map f) := by
  refine ⟨f (as.getLast h), ?_, hf _⟩
  rw [List.getLast?_map, List.getLast?_eq_some_getLast h]
  rfl

/-- Groups of lines that end so may follow. -/
theorem flatMap {α : Type} {f : α → List String} (h : LastSolid ls)
    (hf : ∀ a, LastSolid (f a)) (as : List α) : LastSolid (ls ++ as.flatMap f) := by
  induction as generalizing ls with
  | nil => simpa using h
  | cons a as ih =>
    rw [List.flatMap_cons, ← List.append_assoc]
    exact ih ((hf a).append ls)

/-- A text of such lines ends with one newline. -/
theorem endsOnce (h : LastSolid ls) : EndsOnce (String.join (ls.map (· ++ "\n"))) := by
  obtain ⟨line, hline, hsolid⟩ := h
  obtain ⟨before, rfl⟩ := List.getLast?_eq_some_iff.1 hline
  have htext : String.join ((before ++ [line]).map (· ++ "\n")) =
      String.join (before.map (· ++ "\n")) ++ (line ++ "\n") := by simp
  rw [htext]
  exact hsolid.endsOnce _

end LastSolid

/-- The last line of a declaration is its closing brace. -/
theorem Declaration.lastSolid_lines (d : Dialect) (D : Declaration) : LastSolid (D.lines d) := by
  cases D with
  | object name parameters members =>
    exact LastSolid.append (.singleton ⟨';', rfl, by decide⟩) _
  | enumeration name values =>
    exact LastSolid.append (.singleton ⟨'\x7d', rfl, by decide⟩) _
  | fixedStrings name values lookup =>
    exact LastSolid.append (.singleton ⟨';', rfl, by decide⟩) _

/-! ## Units -/

namespace Units

variable {us : Units} {o : Options} {id : UnitId} {unit : OutputUnit}

theorem lastSolid_header (o : Options) : LastSolid (header o) :=
  LastSolid.append (.singleton ⟨'t', rfl, by decide⟩) _

theorem endsSolid_importLine (us : Units) (id : UnitId) (i : Import) :
    EndsSolid (us.importLine id i) := EndsSolid.append ⟨';', rfl, by decide⟩ _

/-- The last line of a unit is that of its last declaration, or of its last import,
or of the comments at its top. -/
theorem lastSolid_lines (us : Units) (o : Options) (id : UnitId) (unit : OutputUnit) :
    LastSolid (us.lines o id unit) := by
  refine LastSolid.flatMap ?_ (fun D => (D.lastSolid_lines o.dialect).cons "") _
  split
  · rw [List.append_nil]
    exact lastSolid_header o
  · rename_i hsome
    have himports : unit.imports.toList ≠ [] := by
      intro hnil
      exact hsome (by rw [hnil]; rfl)
    exact ((LastSolid.map (endsSolid_importLine us id) himports).cons "").append _

/-- Nothing is cut off the lines of a unit. -/
theorem code_eq_join (us : Units) (o : Options) (id : UnitId) (unit : OutputUnit) :
    (us.renderUnit o id unit).code = String.join ((us.lines o id unit).map (· ++ "\n")) :=
  (lastSolid_lines us o id unit).endsOnce.finish_eq

/-- The text of a unit ends with one newline. -/
theorem endsOnce_code (us : Units) (o : Options) (id : UnitId) (unit : OutputUnit) :
    EndsOnce (us.renderUnit o id unit).code := by
  rw [code_eq_join]
  exact (lastSolid_lines us o id unit).endsOnce

/-- The text of a unit of shared declarations is the same in Flow behind the comment
at its top. -/
theorem code_agree (us : Units) (o : Options) (id : UnitId) (h : unit.isShared = true) :
    (us.renderUnit { o with dialect := .flow } id unit).code =
      "// @flow\n" ++ (us.renderUnit { o with dialect := .typeScript } id unit).code := by
  have hdeclarations : unit.declarations.toList.flatMap ("" :: ·.lines .flow) =
      unit.declarations.toList.flatMap ("" :: ·.lines .typeScript) := by
    have hall := List.all_eq_true.1 h
    rw [List.flatMap_def, List.flatMap_def]
    congr 1
    apply List.map_congr_left
    intro D hD
    rw [D.lines_agree .typeScript .flow (hall D hD)]
  have hlines : us.lines { o with dialect := .flow } id unit =
      "// @flow" :: us.lines { o with dialect := .typeScript } id unit := by
    simp only [lines, header, Dialect.pragma, hdeclarations]
    rfl
  simp only [code_eq_join, hlines, List.map_cons, String.join_cons]
  rfl

/-- In both dialects the units are written in their order, each at its path with
the extension of the dialect, and every text ends with one newline and no other
white space.  A unit of shared declarations is the same text in Flow, behind the
comment that turns the dialect on. -/
theorem dialects_agree (us : Units) (o : Options) :
    let scripts := us.render { o with dialect := .typeScript }
    let flows := us.render { o with dialect := .flow }
    scripts.length = us.size ∧ flows.length = us.size ∧
    ∀ id unit, us.get? id = some unit → ∃ script flow,
      scripts[id.index]? = some script ∧ flows[id.index]? = some flow ∧
      script.path = unit.stem ++ ".ts" ∧ flow.path = unit.stem ++ ".js" ∧
      EndsOnce script.code ∧ EndsOnce flow.code ∧
      (unit.isShared = true → flow.code = "// @flow\n" ++ script.code) := by
  refine ⟨by simp [render, size], by simp [render, size], ?_⟩
  intro id unit hunit
  have hget : us.all.toList[id.index]? = some unit := by
    rw [Array.getElem?_toList]
    exact hunit
  refine ⟨us.renderUnit { o with dialect := .typeScript } id unit,
    us.renderUnit { o with dialect := .flow } id unit, ?_, ?_, ?_, ?_,
    endsOnce_code us _ id unit, endsOnce_code us _ id unit, code_agree us o id⟩
  · simp [render, List.getElem?_mapIdx, hget]
  · simp [render, List.getElem?_mapIdx, hget]
  · simp [renderUnit, Dialect.extension, String.append_assoc]
  · simp [renderUnit, Dialect.extension, String.append_assoc]

/-- A unit that only imports, and a unit with names that end in blanks. -/
def barrel : Units where
  all := #[
    { location := "", imports := #[⟨"User", .unit ⟨1⟩⟩, ⟨"Blob ", .external "blobs"⟩] },
    { location := "people"
      declarations := #[.object "User" ["T "]
        [⟨"tags", true, .orNull (.array (.union [.reference "T ", .reference " "]))⟩]] }]

/-- The second of the two units is shared by the dialects. -/
theorem dialects_agree_barrel : (barrel.render { dialect := .flow }).length = barrel.size ∧
    ∃ unit, barrel.get? ⟨1⟩ = some unit ∧ unit.isShared = true ∧ ∃ script flow,
      (barrel.render { dialect := .typeScript })[1]? = some script ∧
      (barrel.render { dialect := .flow })[1]? = some flow ∧
      script.path = "people.ts" ∧ flow.path = "people.js" ∧
      EndsOnce script.code ∧ EndsOnce flow.code ∧ flow.code = "// @flow\n" ++ script.code := by
  obtain ⟨-, hlength, hunits⟩ := dialects_agree barrel {}
  obtain ⟨script, flow, hscript, hflow, hpath, hpath', hends, hends', hshared⟩ :=
    hunits ⟨1⟩ _ rfl
  have shared : (barrel.all[1]).isShared = true := by decide
  exact ⟨hlength, _, rfl, shared, script, flow, hscript, hflow, hpath, hpath', hends, hends',
    hshared shared⟩

end Units

end TypeExport
