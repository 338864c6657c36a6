import PreloopControl.Properties.TemplateTokens
import PreloopControl.Workflow.DeferredMatrix

/-!
# Deferred and Static Matrices

A deferred matrix is put away as JSON, read again, and its templates are replaced one by one. For
the axes that is what they mean, and for the items of an `include` or `exclude`. A list that is
one expression is another thing: read from the workflow it is a list of one text, and
`expand_matrix` takes the value of the text for the whole list. The deferred path takes it for the
one item of the list, and an array is no item.

## Main definitions

* `isOneText`: A list that is one expression.

## Theorems

* `valueToMatrixSpec_toValue`: The two ways to a specification.
* `deferred_ok_iff`: The cells of a deferred matrix.
* `one_text_fails`: A list that is one expression has no deferred cells where it has static ones.
* `deferred_matrix_agrees`: The two paths agree where no list is one expression, and only there.
-/

namespace Preloop

namespace Matrices

open Expressions Workflow Fallible

variable {N F : Type} {engine : Engine N F} {ctx : Context N} {jobId : Text}

/-! ## Specifications -/

/-- Axes are added in order. -/
theorem specOfFields_axes {axes : Row N} (h : ∀ e ∈ axes, isReserved e.1 = false) :
    ∀ spec : MatrixSpec N, specOfFields jobId axes spec =
      .ok { spec with axes := spec.axes ++ axes.map fun e => (e.1, axisValues e.2) } := by
  induction axes with
  | nil =>
      intro spec
      rw [List.map_nil, List.append_nil]
      rfl
  | cons e axes ih =>
      intro spec
      rcases e with ⟨key, value⟩
      have hkey := h (key, value) List.mem_cons_self
      unfold isReserved at hkey
      rw [Bool.or_eq_false_iff, decide_eq_false_iff_not, decide_eq_false_iff_not] at hkey
      rw [specOfFields, if_neg hkey.1, if_neg hkey.2,
        ih fun d hd => h d (List.mem_cons_of_mem _ hd), List.map_cons, List.append_assoc]
      rfl

/-- The value a matrix is put away as has the specification of the matrix. -/
theorem valueToMatrixSpec_toValue {matrix : Matrix N}
    (h : ∀ e ∈ matrix.axes, isReserved e.1 = false) (spec : MatrixSpec N) :
    valueToMatrixSpec jobId matrix.toValue = .ok spec ↔ matrixToSpec jobId matrix = .ok spec := by
  have hspec : valueToMatrixSpec jobId matrix.toValue = (do
      let included ← matrix.include_.mapM (matrixEntry jobId "include".toList)
      let excluded ← matrix.exclude.mapM (matrixEntry jobId "exclude".toList)
      return { axes := matrix.axes.map fun e => (e.1, axisValues e.2)
               exclude := excluded
               include_ := included }) := by
    show specOfFields jobId (("include".toList, .array matrix.include_) ::
      ("exclude".toList, .array matrix.exclude) :: matrix.axes) {} = _
    rw [specOfFields, if_pos rfl]
    refine bind_congr fun included => ?_
    show specOfFields jobId (("exclude".toList, .array matrix.exclude) :: matrix.axes) _ = _
    rw [specOfFields, if_neg (by decide), if_pos rfl]
    refine bind_congr fun excluded => ?_
    show specOfFields jobId matrix.axes _ = _
    rw [specOfFields_axes h]
    rfl
  -- the lists are checked in another order, which only an error can tell
  rw [hspec]
  unfold matrixToSpec
  cases matrix.include_.mapM (matrixEntry jobId "include".toList) with
  | error e =>
      cases matrix.exclude.mapM (matrixEntry jobId "exclude".toList) with
      | error e' =>
          constructor
          · intro h
            cases h
          · intro h
            cases h
      | ok excluded => exact Iff.rfl
  | ok included =>
      cases matrix.exclude.mapM (matrixEntry jobId "exclude".toList) with
      | error e' => exact Iff.rfl
      | ok excluded => exact Iff.rfl

/-- Two specifications with the same results have the same cells. -/
theorem cellsOf_congr [BEq N] {r r' : Except MatrixError (MatrixSpec N)}
    (h : ∀ spec, r = .ok spec ↔ r' = .ok spec) (cells : List (Row N)) :
    cellsOf jobId r = .ok cells ↔ cellsOf jobId r' = .ok cells := by
  have hrows (rows : List (MatrixCombination N)) :
      (r.bind fun spec => tryExpandMatrixSpec jobId spec) = .ok rows ↔
        (r'.bind fun spec => tryExpandMatrixSpec jobId spec) = .ok rows :=
    bind_ok_iff.trans ((exists_congr fun spec => and_congr_left fun _ => h spec).trans
      bind_ok_iff.symm)
  unfold cellsOf
  rw [mapError_ok_iff, mapError_ok_iff, map_ok_iff, map_ok_iff]
  exact exists_congr fun rows => and_congr_left fun _ => hrows rows

/-! ## Templates -/

/-- The fields keep their names. -/
theorem resolveFields_plain {fields : Row N} (h : ∀ e ∈ fields, isReserved e.1 = false) :
    ∀ {resolved : Row N}, resolveFields engine ctx fields = .ok resolved →
      ∀ e ∈ resolved, isReserved e.1 = false := by
  induction fields with
  | nil =>
      intro resolved hresolved
      cases hresolved
      exact fun e he => absurd he List.not_mem_nil
  | cons d fields ih =>
      intro resolved hresolved e he
      rcases d with ⟨key, value⟩
      rcases bind_eq_ok hresolved with ⟨first, _, hresolved⟩
      rcases bind_eq_ok hresolved with ⟨rest, hrest, hresolved⟩
      cases hresolved
      rcases List.mem_cons.mp he with rfl | he
      · exact h (key, value) List.mem_cons_self
      · exact ih (fun d hd => h d (List.mem_cons_of_mem _ hd)) hrest e he

/-- The parts of a matrix with the templates in them replaced, item by item. -/
def ResolvesTo (engine : Engine N F) (ctx : Context N) (matrix resolved : Matrix N) : Prop :=
  resolveItems engine ctx matrix.include_ = .ok resolved.include_ ∧
    resolveItems engine ctx matrix.exclude = .ok resolved.exclude ∧
    resolveFields engine ctx matrix.axes = .ok resolved.axes

/-- The value a matrix is put away as, with its templates replaced. -/
theorem resolve_toValue {matrix : Matrix N} {value : Value N} :
    resolveMatrixSpecTemplates engine ctx matrix.toValue = .ok value ↔
      ∃ resolved : Matrix N, ResolvesTo engine ctx matrix resolved ∧ value = resolved.toValue := by
  constructor
  · intro h
    rcases map_eq_ok h with ⟨fields, hfields, rfl⟩
    rcases bind_eq_ok hfields with ⟨included, hincluded, hfields⟩
    rcases bind_eq_ok hfields with ⟨rest, hrest, hfields⟩
    rcases bind_eq_ok hrest with ⟨excluded, hexcluded, hrest⟩
    rcases bind_eq_ok hrest with ⟨axes, haxes, hrest⟩
    rcases map_eq_ok hincluded with ⟨includes, hincludes, rfl⟩
    rcases map_eq_ok hexcluded with ⟨excludes, hexcludes, rfl⟩
    cases hrest
    cases hfields
    exact ⟨⟨includes, excludes, axes⟩, ⟨hincludes, hexcludes, haxes⟩, rfl⟩
  · rintro ⟨resolved, ⟨hincludes, hexcludes, haxes⟩, rfl⟩
    show (resolveFields engine ctx _).map Value.object = _
    refine map_ok_iff.mpr ⟨_, ?_, rfl⟩
    refine bind_ok_iff.mpr ⟨_, map_ok_iff.mpr ⟨_, hincludes, rfl⟩, ?_⟩
    refine bind_ok_iff.mpr ⟨_, ?_, rfl⟩
    refine bind_ok_iff.mpr ⟨_, map_ok_iff.mpr ⟨_, hexcludes, rfl⟩, ?_⟩
    exact bind_ok_iff.mpr ⟨_, haxes, rfl⟩

/-! ## The deferred path -/

/-- The text of a matrix behind its mark. -/
theorem dropPrefix?_encode (engine : Engine N F) (matrix : Matrix N) :
    (encodeDeferredMatrixSpec engine matrix).dropPrefix? deferredMatrixSpecMark =
      some (engine.jsonText matrix.toValue) :=
  List.dropPrefix?_append_of_beq _ (beq_self_eq_true _)

/-- The mark is taken off and the JSON is read. -/
theorem deferredValue_encode {matrix : Matrix N}
    (hjson : engine.fromStr (engine.jsonText matrix.toValue) = .ok matrix.toValue) :
    deferredValue engine ctx (encodeDeferredMatrixSpec engine matrix) =
      resolveMatrixSpecTemplates engine ctx matrix.toValue := by
  unfold deferredValue
  rw [dropPrefix?_encode]
  show ((engine.fromStr (engine.jsonText matrix.toValue)).mapError CellsError.json >>=
    resolveMatrixSpecTemplates engine ctx) = _
  rw [hjson]
  rfl

/-- The cells of a deferred matrix. -/
theorem deferred_ok_iff [BEq N] (matrix : WrittenMatrix N)
    (hjson : engine.fromStr (engine.jsonText matrix.toValue) = .ok matrix.toValue)
    (needsOutputs : List (Text × Row N)) (inputs : Option (Row N)) (cells : List (Row N)) :
    resolveDeferredMatrixCells engine jobId (encodeDeferredMatrixSpec engine matrix.toMatrix)
        needsOutputs inputs = .ok cells ↔
      ∃ resolved, ResolvesTo engine (deferredContext needsOutputs inputs) matrix.toMatrix resolved ∧
        cellsOf jobId (matrixToSpec jobId resolved) = .ok cells := by
  unfold resolveDeferredMatrixCells
  rw [deferredValue_encode hjson, bind_ok_iff]
  constructor
  · rintro ⟨value, hvalue, hcells⟩
    rcases resolve_toValue.mp hvalue with ⟨resolved, hresolved, rfl⟩
    have hplain := resolveFields_plain matrix.plain hresolved.2.2
    exact ⟨resolved, hresolved, (cellsOf_congr (valueToMatrixSpec_toValue hplain) cells).mp hcells⟩
  · rintro ⟨resolved, hresolved, hcells⟩
    have hplain := resolveFields_plain matrix.plain hresolved.2.2
    exact ⟨resolved.toValue, resolve_toValue.mpr ⟨resolved, hresolved, rfl⟩,
      (cellsOf_congr (valueToMatrixSpec_toValue hplain) cells).mpr hcells⟩

/-! ## The static path -/

/-- A list that is one expression. -/
def isOneText : List (Value N) → Bool
  | [.string _] => true
  | _ => false

theorem isOneText_eq {values : List (Value N)} (h : isOneText values = true) :
    ∃ t, values = [.string t] := by
  unfold isOneText at h
  split at h
  · next t => exact ⟨t, rfl⟩
  · cases h

/-- A list that is no single expression is resolved item by item. -/
theorem resolvedRows_items {field : Text} {values : List (Value N)}
    (h : isOneText values = false) :
    resolvedRows engine ctx field values = (resolveItems engine ctx values).map some := by
  unfold resolvedRows
  split
  · cases h
  · rfl

/-- Where no list is one expression, the cells of the matrix with its templates resolved. -/
theorem static_ok_iff [BEq N] {matrix : Matrix N} (hinclude : isOneText matrix.include_ = false)
    (hexclude : isOneText matrix.exclude = false) (cells : List (Row N)) :
    staticMatrixCells engine ctx jobId matrix = .ok cells ↔
      ∃ resolved, ResolvesTo engine ctx matrix resolved ∧
        cellsOf jobId (matrixToSpec jobId resolved) = .ok cells := by
  unfold staticMatrixCells resolvedMatrix
  rw [resolvedRows_items hinclude, resolvedRows_items hexclude]
  constructor
  · intro h
    rcases bind_eq_ok h with ⟨resolved, hresolved, hcells⟩
    rcases bind_eq_ok hresolved with ⟨axes, haxes, hresolved⟩
    rcases bind_eq_ok hresolved with ⟨_, hincluded, hresolved⟩
    rcases map_eq_ok hincluded with ⟨included, hincludes, rfl⟩
    rcases bind_eq_ok hresolved with ⟨_, hexcluded, hresolved⟩
    rcases map_eq_ok hexcluded with ⟨excluded, hexcludes, rfl⟩
    cases hresolved
    exact ⟨_, ⟨hincludes, hexcludes, haxes⟩, hcells⟩
  · rintro ⟨resolved, ⟨hincluded, hexcluded, haxes⟩, hcells⟩
    refine bind_ok_iff.mpr ⟨some resolved, ?_, hcells⟩
    refine bind_ok_iff.mpr ⟨_, haxes, ?_⟩
    refine bind_ok_iff.mpr ⟨_, map_ok_iff.mpr ⟨_, hincluded, rfl⟩, ?_⟩
    exact bind_ok_iff.mpr ⟨_, map_ok_iff.mpr ⟨_, hexcluded, rfl⟩, rfl⟩

/-! ## Lists that are one expression -/

/-- The text of a template is stripped as its evaluation strips it. -/
theorem templateExpression_eq {raw expression : Text}
    (h : templateExpression raw = some expression) : expression = trimExpressionMarkers raw := by
  rcases Option.map_eq_some_iff.mp h with ⟨inner, hinner, rfl⟩
  unfold trimExpressionMarkers
  rw [hinner]

/-- A template has the value of its text. -/
theorem evalExpression_template {raw expression : Text} {value : Value N}
    (h : templateExpression raw = some expression)
    (hvalue : evalExpression engine raw ctx = .ok value) :
    evalExpression engine expression ctx = .ok value := by
  rw [templateExpression_eq h]
  rcases bind_eq_ok hvalue with ⟨e, hparse, heval⟩
  rw [evalExpression_of_parse (trim_trimExpressionMarkers raw) hparse]
  exact heval

/-- The one item of a resolved list is no object where the static path has rows. -/
theorem one_text_fails {field : Text} {raw : Text} {rows : Option (List (Value N))}
    {items : List (Value N)} {entries : List (Row N)}
    (hstatic : resolvedRows engine ctx field [.string raw] = .ok rows)
    (hitems : resolveItems engine ctx [.string raw] = .ok items)
    (hentries : items.mapM (matrixEntry jobId field) = .ok entries) : False := by
  rcases bind_eq_ok hitems with ⟨item, hitem, hitems⟩
  cases hitems
  rcases mapM_cons_ok hentries with ⟨row, _, hrow, -⟩
  -- an item that becomes an entry is an object
  have hobject : ∃ fields, item = .object fields := by
    cases item with
    | object fields => exact ⟨fields, rfl⟩
    | _ => cases hrow
  rcases hobject with ⟨fields, rfl⟩
  unfold resolveMatrixSpecTemplates at hitem
  by_cases hopen : Text.contains openMark raw = true
  · rw [if_pos hopen] at hitem
    -- the text is one expression whose value is that object, and no list is made of an object
    unfold resolveTemplate at hitem
    rcases bind_eq_ok (mapError_ok_iff.mp hstatic) with ⟨value, hvalue, hrows⟩
    have heval := mapError_ok_iff.mp hvalue
    cases htemplate : templateExpression raw with
    | none =>
        rw [htemplate] at hitem
        cases hitem
    | some expression =>
        rw [htemplate] at hitem
        have hobject := mapError_ok_iff.mp hitem
        rw [evalExpression_template htemplate heval] at hobject
        cases hobject
        cases hrows
  · rw [if_neg hopen] at hitem
    cases hitem

/-- A list that is one expression has no deferred cells where it has static ones. -/
theorem deferred_fails [BEq N] {matrix resolved : Matrix N} {cells cells' : List (Row N)}
    (hstatic : staticMatrixCells engine ctx jobId matrix = .ok cells)
    (hresolved : ResolvesTo engine ctx matrix resolved)
    (hcells : cellsOf jobId (matrixToSpec jobId resolved) = .ok cells') :
    isOneText matrix.include_ = false ∧ isOneText matrix.exclude = false := by
  rcases map_eq_ok (mapError_ok_iff.mp hcells) with ⟨rows, hrows, -⟩
  rcases bind_eq_ok hrows with ⟨spec, hspec, -⟩
  rcases bind_eq_ok hspec with ⟨excludes, hexcludes, hspec⟩
  rcases bind_eq_ok hspec with ⟨includes, hincludes, -⟩
  rcases bind_eq_ok hstatic with ⟨result, hresult, -⟩
  rcases bind_eq_ok hresult with ⟨axes, -, hresult⟩
  rcases bind_eq_ok hresult with ⟨included, hincluded, hresult⟩
  have hinclude : isOneText matrix.include_ = false := by
    refine Bool.eq_false_iff.mpr fun hone => ?_
    rcases isOneText_eq hone with ⟨raw, hraw⟩
    have hitems := hresolved.1
    rw [hraw] at hincluded hitems
    exact one_text_fails hincluded hitems hincludes
  refine ⟨hinclude, Bool.eq_false_iff.mpr fun hone => ?_⟩
  rcases isOneText_eq hone with ⟨raw, hraw⟩
  have hitems := hresolved.2.1
  rw [resolvedRows_items hinclude] at hincluded
  rcases map_eq_ok hincluded with ⟨items, -, rfl⟩
  rcases bind_eq_ok hresult with ⟨excluded, hexcluded, -⟩
  rw [hraw] at hexcluded hitems
  exact one_text_fails hexcluded hitems hexcludes

/-! ## The path of `expand_matrix` -/

/-- A list without templates, or one expression, is resolved as `expand_matrix` resolves it. -/
theorem resolvedRows_eq {field : Text} {values : List (Value N)}
    (h : isOneText values = false → resolveItems engine ctx values = .ok values) :
    resolvedRows engine ctx field values =
      (resolveRows engine ctx field values).mapError .matrix := by
  cases hone : isOneText values with
  | true =>
      rcases isOneText_eq hone with ⟨t, rfl⟩
      rfl
  | false =>
      have hrows : resolveRows engine ctx field values = .ok (some values) := by
        unfold resolveRows
        split
        · cases hone
        · rfl
      rw [resolvedRows_items hone, h hone, hrows]
      rfl

/-- The rows of a specification, as an expansion and as cells. -/
theorem combinationsOf_iff [BEq N] (r : Except MatrixError (MatrixSpec N)) (cells : List (Row N)) :
    (r >>= combinationsOf jobId) = .ok (.combinations cells) ↔ cellsOf jobId r = .ok cells := by
  unfold cellsOf
  rw [mapError_ok_iff, map_ok_iff, bind_ok_iff]
  constructor
  · rintro ⟨spec, hspec, hrows⟩
    rcases bind_eq_ok hrows with ⟨rows, hexpand, hcells⟩
    cases hcells
    exact ⟨rows, bind_ok_iff.mpr ⟨spec, hspec, hexpand⟩, rfl⟩
  · rintro ⟨rows, hrows, rfl⟩
    rcases bind_eq_ok hrows with ⟨spec, hspec, hrows⟩
    exact ⟨spec, hspec, bind_ok_iff.mpr ⟨rows, hrows, rfl⟩⟩

/-- Where nothing is left to resolve but lists that are one expression, the static path is that of
    `expand_matrix`. -/
theorem expandStatic_cells [BEq N] {matrix : Matrix N}
    (hneeds : matrixContainsNeedsExpression matrix = false)
    (haxes : resolveFields engine ctx matrix.axes = .ok matrix.axes)
    (hinclude : isOneText matrix.include_ = false →
      resolveItems engine ctx matrix.include_ = .ok matrix.include_)
    (hexclude : isOneText matrix.exclude = false →
      resolveItems engine ctx matrix.exclude = .ok matrix.exclude) (cells : List (Row N)) :
    expandStatic engine jobId matrix ctx = .ok (.combinations cells) ↔
      staticMatrixCells engine ctx jobId matrix = .ok cells := by
  have hnull : (Except.ok (Expansion.combinations [[]]) : Except MatrixError (Expansion N)) =
      .ok (.combinations cells) ↔
        (Except.ok [[]] : Except CellsError (List (Row N))) = .ok cells := by
    rw [Except.ok.injEq, Except.ok.injEq, Expansion.combinations.injEq]
  unfold expandStatic staticMatrixCells resolvedMatrix
  rw [hneeds, if_neg Bool.false_ne_true, haxes, resolvedRows_eq hinclude, resolvedRows_eq hexclude]
  -- a list that resolves to no rows gives the one empty combination, on both paths
  cases resolveRows engine ctx "include".toList matrix.include_ with
  | error e =>
      constructor
      · intro h
        cases h
      · intro h
        cases h
  | ok included =>
      cases included with
      | none => exact hnull
      | some included =>
          cases resolveRows engine ctx "exclude".toList matrix.exclude with
          | error e =>
              constructor
              · intro h
                cases h
              · intro h
                cases h
          | ok excluded =>
              cases excluded with
              | none => exact hnull
              | some excluded => exact combinationsOf_iff _ cells

/-! ## A run -/

theorem callFunction_fromJson (values : List (Value N)) :
    callFunction engine "fromJSON".toList values ctx =
      withRemaining fun _ => fromJsonLenient engine (stringArg engine values 0) := by
  have hlower : "fromJSON".toList.map Char.toLower = "fromjson".toList := by decide
  unfold callFunction
  simp only [hlower]
  rw [if_neg (by decide), if_neg (by decide), if_neg (by decide), if_neg (by decide),
    if_neg (by decide), if_neg (by decide), if_neg (by decide), if_neg (by decide),
    if_pos True.intro]

/-- `fromJSON` of a text that a path leads to. -/
theorem evalFresh_fromJson {path : List Text} {t : Text} {value : Value N}
    (hpath : (ctx.resolveRef path).getD (ctx.resolve path) = .string t)
    (hjson : engine.fromStr t = .ok value)
    (hsize : valueSize (.string t : Value N) + valueSize value ≤ maxEvaluatedValueBytes) :
    evalFresh engine ctx (.call "fromJSON".toList [.path path]) = .ok value := by
  have harity : validateFunctionArity "fromJSON".toList 1 = .ok () := by decide
  have hcase : ¬ "fromJSON".toList.map Char.toLower = "case".toList := by decide
  have henter : ∀ depth < 2, enterEval depth = pure () := by
    intro depth hdepth
    exact if_neg (by simp only [maxExpressionDepth]; omega)
  have hfirst : charge (.string t : Value N) 0 = .ok ((), 0 + valueSize (.string t : Value N)) := by
    rw [charge, if_neg (by omega)]
  have hsecond : charge value (0 + valueSize (.string t : Value N)) =
      .ok ((), 0 + valueSize (.string t : Value N) + valueSize value) := by
    rw [charge, if_neg (by omega)]
  have hfrom : fromJsonLenient engine (stringArg engine [.string t] 0) = .ok value := by
    show fromJsonLenient engine t = _
    unfold fromJsonLenient
    rw [hjson]
  unfold evalFresh
  rw [eval, henter 0 (by omega), List.length_singleton, harity, if_neg hcase, evalArgs, evalArgs,
    eval, henter 1 (by omega), evalPath, hpath]
  simp only [callFunction_fromJson, charged, pure_bind, bind_assoc]
  -- the text is charged, read, and its value is charged
  change Except.map _ ((charge (Value.string t : Value N) 0).bind _) = _
  rw [hfirst]
  change Except.map _ ((Except.map _
    (fromJsonLenient engine (stringArg engine [.string t] 0))).bind _) = _
  rw [hfrom]
  change Except.map _ ((charge value (0 + valueSize (Value.string t : Value N))).bind _) = _
  rw [hsecond]
  rfl

theorem evalExpression_of_trimmed {t : Text} {e : Expr N}
    (h : parseExpression engine.parseNumber (trimExpressionMarkers t) = .ok e) :
    evalExpression engine t ctx = evalFresh engine ctx e := by
  unfold evalExpression
  rw [h]
  rfl

/-- `fromJSON(needs.setup.outputs.rows)`. -/
def rowsExpression : Text := "fromJSON(needs.setup.outputs.rows)".toList

/-- The expression between its markers. -/
def rowsTemplate : Text := "$\x7b\x7b ".toList ++ rowsExpression ++ " \x7d\x7d".toList

/-- A matrix whose `include` is the expression. -/
def rowsMatrix : WrittenMatrix Int where
  include_ := [.string rowsTemplate]
  plain _ h := absurd h List.not_mem_nil

/-- A matrix with the expression as an axis. -/
def axisMatrix : WrittenMatrix Int where
  axes := [("row".toList, .string rowsTemplate)]
  plain e h := by
    rw [List.mem_singleton.mp h]
    decide

/-- `[{"os":"linux"}]`. -/
def osRowsText : Text := "[\x7b\x22os\x22:\x22linux\x22\x7d]".toList

/-- The row of that text. -/
def linuxRow : Row Int := [("os".toList, .string "linux".toList)]

/-- The JSON of the first matrix. -/
def rowsMatrixText : Text :=
  "\x7b\x22include\x22:[\x22".toList ++ rowsTemplate ++ "\x22],\x22exclude\x22:[]\x7d".toList

/-- The JSON of the second matrix. -/
def axisMatrixText : Text :=
  "\x7b\x22include\x22:[],\x22exclude\x22:[],\x22row\x22:\x22".toList ++ rowsTemplate ++
    "\x22\x7d".toList

/-- The text of one of the two matrices. -/
def matrixText : Value Int → Text
  | .object [_, _] => rowsMatrixText
  | _ => axisMatrixText

/-- The values of these texts. -/
def readText (t : Text) : Except Text (Value Int) :=
  if t = osRowsText then .ok (.array [.object linuxRow])
  else if t = rowsMatrixText then .ok rowsMatrix.toValue
  else if t = axisMatrixText then .ok axisMatrix.toValue
  else .error []

/-- An engine that knows the JSON of the two matrices and of the row. -/
def rowsEngine : Engine Int Int :=
  { integerEngine with jsonText := matrixText, fromStr := readText }

/-- The outputs of the needs. -/
def rowsNeeds : List (Text × Row Int) := [("setup".toList, [("rows".toList, .string osRowsText)])]

theorem parse_rows : parseExpression rowsEngine.parseNumber rowsExpression =
    .ok (.call "fromJSON".toList
      [.path [needsRoot, "setup".toList, "outputs".toList, "rows".toList]]) := by
  have hlex : lex rowsExpression = .ok [.ident "fromJSON".toList, .lparen, .ident needsRoot, .dot,
      .ident "setup".toList, .dot, .ident "outputs".toList, .dot, .ident "rows".toList, .rparen,
      .eof] := by
    decide
  rw [parseExpression, hlex]
  rfl

theorem rowsMatrix_json : rowsEngine.fromStr (rowsEngine.jsonText rowsMatrix.toValue) =
    .ok rowsMatrix.toValue := rfl

theorem axisMatrix_json : rowsEngine.fromStr (rowsEngine.jsonText axisMatrix.toValue) =
    .ok axisMatrix.toValue := rfl

/-- The expression has a list of one row as its value. -/
theorem eval_rows : evalExpression rowsEngine rowsTemplate (deferredContext rowsNeeds none) =
    .ok (.array [.object linuxRow]) := by
  have htrim : trimExpressionMarkers rowsTemplate = rowsExpression := by decide
  have hparse := parse_rows
  rw [← htrim] at hparse
  rw [evalExpression_of_trimmed hparse]
  refine evalFresh_fromJson (t := osRowsText) ?_ ?_ ?_
  · rfl
  · rfl
  · decide

/-- The item of the template is the list. -/
theorem resolve_rows : resolveMatrixSpecTemplates rowsEngine (deferredContext rowsNeeds none)
    (.string rowsTemplate) = .ok (.array [.object linuxRow]) := by
  have hopen : Text.contains openMark rowsTemplate = true := by decide
  have htemplate : templateExpression rowsTemplate = some rowsExpression := by decide
  unfold resolveMatrixSpecTemplates resolveTemplate
  rw [if_pos hopen, htemplate]
  exact mapError_ok_iff.mpr (evalExpression_template htemplate eval_rows)

theorem resolvedMatrix_of_parts {matrix resolved : Matrix N}
    (hinclude : resolvedRows engine ctx "include".toList matrix.include_ =
      .ok (some resolved.include_))
    (hexclude : resolvedRows engine ctx "exclude".toList matrix.exclude =
      .ok (some resolved.exclude))
    (haxes : resolveFields engine ctx matrix.axes = .ok resolved.axes) :
    resolvedMatrix engine ctx matrix = .ok (some resolved) := by
  unfold resolvedMatrix
  rw [haxes, hinclude, hexclude]
  rfl

theorem resolvedRows_array {field t : Text} {items : List (Value N)}
    (h : evalExpression engine t ctx = .ok (.array items)) :
    resolvedRows engine ctx field [.string t] = .ok (some items) := by
  simp only [resolvedRows, resolveRows, h]
  rfl

theorem staticMatrixCells_of_resolved [BEq N] {matrix resolved : Matrix N}
    (h : resolvedMatrix engine ctx matrix = .ok (some resolved)) :
    staticMatrixCells engine ctx jobId matrix = cellsOf jobId (matrixToSpec jobId resolved) := by
  unfold staticMatrixCells
  rw [h]
  rfl

theorem rows_static : staticMatrixCells rowsEngine (deferredContext rowsNeeds none)
    "build".toList rowsMatrix.toMatrix = .ok [linuxRow] := by
  have hresolved : resolvedMatrix rowsEngine (deferredContext rowsNeeds none) rowsMatrix.toMatrix =
      .ok (some ⟨[.object linuxRow], [], []⟩) := by
    refine resolvedMatrix_of_parts (resolvedRows_array eval_rows) ?_ ?_
    · rfl
    · rfl
  rw [staticMatrixCells_of_resolved hresolved]
  rfl

theorem rows_deferred : resolveDeferredMatrixCells rowsEngine "build".toList
    (encodeDeferredMatrixSpec rowsEngine rowsMatrix.toMatrix) rowsNeeds none =
      .error (.matrix (.invalidMatrixEntry "build".toList "include".toList)) := by
  have hvalue : deferredValue rowsEngine (deferredContext rowsNeeds none)
      (encodeDeferredMatrixSpec rowsEngine rowsMatrix.toMatrix) =
        .ok (Matrix.toValue ⟨[.array [.object linuxRow]], [], []⟩) := by
    have hitems : resolveItems rowsEngine (deferredContext rowsNeeds none) [.string rowsTemplate] =
        .ok [.array [.object linuxRow]] := by
      unfold resolveItems
      rw [resolve_rows]
      rfl
    rw [deferredValue_encode rowsMatrix_json]
    exact resolve_toValue.mpr ⟨⟨[.array [.object linuxRow]], [], []⟩, ⟨hitems, rfl, rfl⟩, rfl⟩
  unfold resolveDeferredMatrixCells
  rw [hvalue]
  rfl

theorem axis_static : staticMatrixCells rowsEngine (deferredContext rowsNeeds none)
    "build".toList axisMatrix.toMatrix = .ok [[("row".toList, .object linuxRow)]] := by
  have hfields : resolveFields rowsEngine (deferredContext rowsNeeds none)
      [("row".toList, .string rowsTemplate)] = .ok [("row".toList, .array [.object linuxRow])] := by
    unfold resolveFields
    rw [resolve_rows]
    rfl
  have hresolved : resolvedMatrix rowsEngine (deferredContext rowsNeeds none) axisMatrix.toMatrix =
      .ok (some ⟨[], [], [("row".toList, .array [.object linuxRow])]⟩) := by
    refine resolvedMatrix_of_parts ?_ ?_ hfields
    · rfl
    · rfl
  rw [staticMatrixCells_of_resolved hresolved]
  rfl

/-! ## The two paths -/

/-- The two paths agree where no list is one expression. Where the static path has cells, the
    deferred one has them only there. -/
theorem deferred_matrix_agrees [BEq N] (matrix : WrittenMatrix N)
    (hjson : engine.fromStr (engine.jsonText matrix.toValue) = .ok matrix.toValue)
    (jobId : Text) (needsOutputs : List (Text × Row N)) (inputs : Option (Row N))
    (cells : List (Row N)) :
    (isOneText matrix.include_ = false ∧ isOneText matrix.exclude = false →
      (resolveDeferredMatrixCells engine jobId (encodeDeferredMatrixSpec engine matrix.toMatrix)
          needsOutputs inputs = .ok cells ↔
        staticMatrixCells engine (deferredContext needsOutputs inputs) jobId matrix.toMatrix =
          .ok cells)) ∧
    (staticMatrixCells engine (deferredContext needsOutputs inputs) jobId matrix.toMatrix =
        .ok cells →
      (resolveDeferredMatrixCells engine jobId (encodeDeferredMatrixSpec engine matrix.toMatrix)
          needsOutputs inputs = .ok cells ↔
        isOneText matrix.include_ = false ∧ isOneText matrix.exclude = false)) := by
  have hagree (h : isOneText matrix.include_ = false ∧ isOneText matrix.exclude = false) :
      resolveDeferredMatrixCells engine jobId (encodeDeferredMatrixSpec engine matrix.toMatrix)
          needsOutputs inputs = .ok cells ↔
        staticMatrixCells engine (deferredContext needsOutputs inputs) jobId matrix.toMatrix =
          .ok cells :=
    (deferred_ok_iff matrix hjson needsOutputs inputs cells).trans
      (static_ok_iff h.1 h.2 cells).symm
  refine ⟨hagree, fun hstatic => ⟨fun hdeferred => ?_, fun h => (hagree h).mpr hstatic⟩⟩
  rcases (deferred_ok_iff matrix hjson needsOutputs inputs cells).mp hdeferred with
    ⟨resolved, hresolved, hcells⟩
  exact deferred_fails hstatic hresolved hcells

/-- The expression as an axis: both paths have its cell. -/
theorem deferred_matrix_agrees_axis :
    resolveDeferredMatrixCells rowsEngine "build".toList
      (encodeDeferredMatrixSpec rowsEngine axisMatrix.toMatrix) rowsNeeds none =
        .ok [[("row".toList, .object linuxRow)]] :=
  ((deferred_matrix_agrees axisMatrix axisMatrix_json "build".toList rowsNeeds none
    [[("row".toList, .object linuxRow)]]).1 ⟨rfl, rfl⟩).mpr axis_static

/-- An `include` that is one expression: its rows are the cells of the static path, and the
    deferred path takes the list of them for a row. -/
theorem include_expression_fails :
    rowsEngine.fromStr (rowsEngine.jsonText rowsMatrix.toValue) = .ok rowsMatrix.toValue ∧
    staticMatrixCells rowsEngine (deferredContext rowsNeeds none) "build".toList
      rowsMatrix.toMatrix = .ok [linuxRow] ∧
    resolveDeferredMatrixCells rowsEngine "build".toList
      (encodeDeferredMatrixSpec rowsEngine rowsMatrix.toMatrix) rowsNeeds none =
        .error (.matrix (.invalidMatrixEntry "build".toList "include".toList)) :=
  ⟨rowsMatrix_json, rows_static, rows_deferred⟩

end Matrices

end Preloop
