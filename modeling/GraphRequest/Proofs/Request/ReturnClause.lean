import GraphRequest.Proofs.Fold.Repetition
import GraphRequest.Request.QueryText
import Mathlib.Data.List.DropRight

/-!
# The return clause names what reduction reads

The columns of a node are listed when the query is made and looked up when rows come back.  The two
have nothing in common but the tree: each goes down it in its own way and tests directives and
roots by itself.  That they agree on the columns is stated over the finished query text, as someone
would read it who knows nothing of the tree.

* `reportedColumns` — the names in the return clause of a text, which is its last line: an edge or
  a string in the pattern clause may have line feeds and even words like `return`, but no name has.
* `Request.reportedColumns_queryText` — they are the columns of the request, in order.
* `Request.reduce_reported` — rows may be stripped to them before they are reduced.
-/

namespace GraphRequest

/-! ## Reading a return clause -/

namespace ReturnClause

/-- What stands after the last line feed. -/
def lastLine (text : List Char) : List Char :=
  text.rtakeWhile (· != '\n')

/-- What stands after the first ` as `, if there is one. -/
def afterAs? : List Char → Option (List Char)
  | [] => none
  | c :: cs =>
    if " as ".toList.isPrefixOf (c :: cs) then some ((c :: cs).drop " as ".length)
    else afterAs? cs

/-- The name of a return item: what stands after ` as ` if there is one, else all of it. -/
def itemName (item : List Char) : List Char :=
  (afterAs? item).getD item

/-- The items of a return clause, without the blanks in front of them. -/
def items (clause : List Char) : List (List Char) :=
  ((clause.drop "return ".length).splitOn ',').map fun item => item.dropWhile (· == ' ')

end ReturnClause

/-- The columns that are named in the return clause of a query text. -/
def reportedColumns (queryText : String) : List String :=
  (ReturnClause.items (ReturnClause.lastLine queryText.toList)).map fun item =>
    String.ofList (ReturnClause.itemName item)

namespace ReturnClause

lemma lastLine_append {front line : List Char} (h : '\n' ∉ line) :
    lastLine (front ++ '\n' :: line) = line := by
  have hline : ∀ c ∈ line.reverse, (c != '\n') = true := fun c hc => by
    simpa using fun hfeed : c = '\n' => h (hfeed ▸ List.mem_reverse.mp hc)
  have hfeed : ∀ c, ('\n' :: front.reverse).head? = some c → (c != '\n') = false := by simp
  have htake := (takeWhile_dropWhile_append hline hfeed).1
  rw [lastLine, List.rtakeWhile, List.reverse_append, List.reverse_cons, List.append_assoc,
    List.singleton_append, htake, List.reverse_reverse]

lemma afterAs?_append {front : List Char} (name : List Char) (h : ' ' ∉ front) :
    afterAs? (front ++ " as ".toList ++ name) = some name := by
  induction front with
  | nil => rfl
  | cons c front ih =>
      obtain ⟨hc, hfront⟩ := not_or.mp (mt List.mem_cons.mpr h)
      have hprefix : " as ".toList.isPrefixOf (c :: (front ++ " as ".toList ++ name)) = false := by
        simp [List.isPrefixOf, hc]
      rw [List.cons_append, List.cons_append, afterAs?, hprefix]
      exact ih hfront

lemma afterAs?_eq_none {item : List Char} (h : ' ' ∉ item) : afterAs? item = none := by
  induction item with
  | nil => rfl
  | cons c item ih =>
      obtain ⟨hc, hitem⟩ := not_or.mp (mt List.mem_cons.mpr h)
      have hprefix : " as ".toList.isPrefixOf (c :: item) = false := by
        simp [List.isPrefixOf, hc]
      rw [afterAs?, hprefix]
      exact ih hitem

/-- Items that have no comma and do not begin with a blank are found in the clause. -/
lemma items_return {parts : List (List Char)} (hne : parts ≠ [])
    (h : ∀ part ∈ parts, ',' ∉ part ∧ part.head? ≠ some ' ') :
    items ("return ".toList ++ ", ".toList.intercalate parts) = parts := by
  cases parts with
  | nil => exact absurd rfl hne
  | cons first others =>
      obtain ⟨hfirst, hothers⟩ := List.forall_mem_cons.mp h
      -- Read with a bare comma between them, all items but the first have a blank in front.
      have hbare : ", ".toList.intercalate (first :: others)
          = [','].intercalate (first :: others.map (' ' :: ·)) := by
        simp [intercalate_cons, List.flatMap_map]
      have hsplit : ([','].intercalate (first :: others.map (' ' :: ·))).splitOn ','
          = first :: others.map (' ' :: ·) := by
        refine List.splitOn_intercalate ',' (List.forall_mem_cons.mpr ⟨hfirst.1, ?_⟩)
          (List.cons_ne_nil _ _)
        simpa using fun part hpart => (hothers part hpart).1
      have hkept : ∀ part ∈ first :: others, part.dropWhile (· == ' ') = part := by
        intro part hpart
        have hhead := (h part hpart).2
        cases part with
        | nil => rfl
        | cons c part => exact List.dropWhile_cons_of_neg (by simpa using hhead)
      have hrest : (others.map (' ' :: ·)).map (·.dropWhile (· == ' ')) = others := by
        rw [List.map_map]
        refine (List.map_congr_left fun part hpart => ?_).trans (List.map_id others)
        exact hkept part (List.mem_cons_of_mem _ hpart)
      have hdrop : ∀ line : List Char, ("return ".toList ++ line).drop "return ".length = line :=
        fun _ => List.drop_left' rfl
      rw [items, hbare, hdrop, hsplit, List.map_cons, hrest, hkept first List.mem_cons_self]

end ReturnClause

/-- That a return item can be told from those beside it. -/
structure ReturnClause.Separable (item : String) : Prop where
  comma : ',' ∉ item.toList
  line : '\n' ∉ item.toList
  blank : item.toList.head? ≠ some ' '

/-- The return clause is found behind whatever is in front of it. -/
theorem reportedColumns_append (front : String) {items : List String} (hne : items ≠ [])
    (h : ∀ item ∈ items, ReturnClause.Separable item) :
    reportedColumns (front ++ "\nreturn " ++ ", ".intercalate items)
      = items.map fun item => String.ofList (ReturnClause.itemName item.toList) := by
  have hline : '\n' ∉ "return ".toList ++ ", ".toList.intercalate (items.map String.toList) := by
    rw [List.mem_append, not_or]
    refine ⟨by decide, not_mem_intercalate (by decide) (List.forall_mem_map.mpr ?_)⟩
    exact fun item hitem => (h item hitem).line
  have hcut : ReturnClause.lastLine (front ++ "\nreturn " ++ ", ".intercalate items).toList
      = "return ".toList ++ ", ".toList.intercalate (items.map String.toList) := by
    rw [String.toList_append, String.toList_append, String.toList_intercalate, List.append_assoc]
    exact ReturnClause.lastLine_append hline
  have hitems := ReturnClause.items_return (mt List.map_eq_nil_iff.mp hne)
    (List.forall_mem_map.mpr fun item hitem => ⟨(h item hitem).comma, (h item hitem).blank⟩)
  rw [reportedColumns, hcut, hitems, List.map_map]
  rfl

/-! ## Plain texts -/

/-- The characters of columns and of what they are names of.  No comma, no blank and no line feed is
    among them. -/
def isPlain (c : Char) : Bool :=
  isNameChar c || c == '.' || c == '(' || c == ')'

/-- That all characters of a text are plain. -/
def Plain (text : String) : Prop :=
  ∀ c ∈ text.toList, isPlain c = true

lemma Plain.append {text more : String} (h : Plain text) (hmore : Plain more) :
    Plain (text ++ more) := by
  rw [Plain, String.toList_append]
  exact List.forall_mem_append.mpr ⟨h, hmore⟩

lemma Plain.not_mem {text : String} (h : Plain text) {c : Char} (hc : isPlain c = false) :
    c ∉ text.toList :=
  fun hmem => absurd (h c hmem) (by simp [hc])

lemma IsName.plain {name : String} (h : IsName name) : Plain name :=
  fun c hc => by simp [isPlain, h.all c hc]

/-! ## The return items of a node -/

namespace Pattern

section

variable (pattern : Pattern)

/-- What a column is a name of, unless it stands for itself. -/
def source? : Column → Option String
  | .id => some ("id(" ++ pattern.name ++ ")")
  | .labels => some ("labels(" ++ pattern.name ++ ")")
  | .graph => some pattern.name
  | .field _ | .edge => none

/-- A column as it stands in the return clause. -/
def returnItem (column : Column) : String :=
  match pattern.source? column with
  | some source => source ++ " as " ++ pattern.column column
  | none => pattern.column column

/-- The two recursions test directives and roots alike. -/
lemma returnItems_eq : pattern.returnItems = pattern.held.map pattern.returnItem := by
  have hfields : pattern.fields.map pattern.fieldColumn
      = (pattern.fields.map Column.field).map pattern.returnItem := by
    rw [List.map_map]
    rfl
  rw [returnItems, held, hfields]
  cases pattern.labels <;> cases pattern.graph <;> cases pattern.isRoot <;>
    simp [returnItem, source?, column, String.append_assoc]

end

variable {pattern : Pattern}

lemma Lexical.isName_of_mem_held (h : pattern.Lexical) {column : Column}
    (hmem : column ∈ pattern.held) : ∀ name, column = .field name → IsName name := by
  rintro name rfl
  have hfield : name ∈ pattern.fields := by
    rw [held] at hmem
    cases hlabels : pattern.labels <;> cases hgraph : pattern.graph <;>
      cases hroot : pattern.isRoot <;> simpa [hlabels, hgraph, hroot] using hmem
  exact h.fields name hfield

variable {column : Column} (hname : IsName pattern.name)
  (hfield : ∀ name, column = .field name → IsName name)

include hname hfield in
lemma plain_column : Plain (pattern.column column) := by
  have hlead : Plain column.lead := by
    cases column <;> simp [Plain, Column.lead, isPlain, isNameChar]
  have htail : Plain column.tail := by
    cases column with
    | field name => exact Plain.append (by simp [Plain, isPlain]) (hfield name rfl).plain
    | _ => exact List.all_eq_true.mp (by decide)
  rw [column_eq]
  exact (hlead.append hname.plain).append htail

include hname in
lemma plain_source {source : String} (h : pattern.source? column = some source) :
    Plain source := by
  have hclose : Plain ")" := List.all_eq_true.mp (by decide)
  cases column with
  | id | labels =>
      cases h
      exact (Plain.append (List.all_eq_true.mp (by decide)) hname.plain).append hclose
  | graph =>
      cases h
      exact hname.plain
  | field | edge => cases h

include hname hfield in
/-- **A return item is called like the column it was made for.** -/
lemma itemName_returnItem :
    ReturnClause.itemName (pattern.returnItem column).toList = (pattern.column column).toList := by
  have hblank := (plain_column hname hfield).not_mem (c := ' ') (by decide)
  rw [returnItem, ReturnClause.itemName]
  cases hsource : pattern.source? column with
  | none => rw [ReturnClause.afterAs?_eq_none hblank, Option.getD_none]
  | some source =>
      have hfront := (plain_source hname hsource).not_mem (c := ' ') (by decide)
      simp only [String.toList_append]
      rw [ReturnClause.afterAs?_append _ hfront, Option.getD_some]

include hname hfield in
lemma not_mem_returnItem {c : Char} (hc : isPlain c = false) (hblank : c ∉ " as ".toList) :
    c ∉ (pattern.returnItem column).toList := by
  have hcolumn := (plain_column hname hfield).not_mem hc
  rw [returnItem]
  cases hsource : pattern.source? column with
  | none => exact hcolumn
  | some source =>
      have hfront := (plain_source hname hsource).not_mem hc
      simp only [String.toList_append, List.mem_append, not_or]
      exact ⟨⟨hfront, hblank⟩, hcolumn⟩

include hname in
lemma head?_returnItem : (pattern.returnItem column).toList.head? ≠ some ' ' := by
  obtain ⟨c, cs, hcs, hc, -⟩ := hname
  have hstart : c ≠ ' ' := by
    rintro rfl
    exact absurd hc (by decide)
  cases column <;>
    simp [returnItem, source?, Pattern.column, idColumn, fieldColumn, labelsColumn, edgeColumn,
      hcs, hstart]

include hname hfield in
lemma separable_returnItem : ReturnClause.Separable (pattern.returnItem column) where
  comma := not_mem_returnItem hname hfield (by decide) (by decide)
  line := not_mem_returnItem hname hfield (by decide) (by decide)
  blank := head?_returnItem hname

end Pattern

/-! ## The return clause of a request -/

namespace Request

mutual

lemma returnItems_eq : ∀ request : Request,
    request.returnItems = request.nodes.flatMap fun node => node.pattern.returnItems
  | ⟨pattern, children⟩ => by
      rw [returnItems, nodes_eq, List.flatMap_cons, returnItemsOf_eq children]
termination_by structural request => request

lemma returnItemsOf_eq : ∀ requests : List Request,
    returnItemsOf requests = (nodesOf requests).flatMap fun node => node.pattern.returnItems
  | [] => rfl
  | request :: requests => by
      rw [returnItemsOf, nodesOf_cons, List.flatMap_append, returnItems_eq request,
        returnItemsOf_eq requests]
termination_by structural requests => requests

end

/-- All that is reported, each with the pattern it is reported of. -/
def held (request : Request) : List (Pattern × Column) :=
  request.nodes.flatMap fun node => node.pattern.held.map fun column => (node.pattern, column)

lemma returnItems_eq_map_held (request : Request) :
    request.returnItems = request.held.map fun (pattern, column) => pattern.returnItem column := by
  simp [returnItems_eq, Pattern.returnItems_eq, held, List.map_flatMap, Function.comp_def]

lemma columns_eq_map_held (request : Request) :
    request.columns = request.held.map fun (pattern, column) => pattern.column column := by
  simp [columns, Pattern.columns, held, List.map_flatMap, Function.comp_def]

lemma isName_of_mem_held {request : Request} (h : ∀ node ∈ request.nodes, node.pattern.Lexical)
    {pattern : Pattern} {column : Column} (hmem : (pattern, column) ∈ request.held) :
    IsName pattern.name ∧ ∀ name, column = .field name → IsName name := by
  obtain ⟨node, hnode, hmem⟩ := List.mem_flatMap.mp hmem
  obtain ⟨_, hcolumn, heq⟩ := List.mem_map.mp hmem
  cases heq
  exact ⟨(h node hnode).name, (h node hnode).isName_of_mem_held hcolumn⟩

/-- **The return clause names the columns of the request**, in order and nothing else. -/
theorem reportedColumns_queryText {request : Request}
    (h : ∀ node ∈ request.nodes, node.pattern.Lexical) :
    reportedColumns request.queryText = request.columns := by
  have hne : request.returnItems ≠ [] := by
    obtain ⟨pattern, children⟩ := request
    simp [returnItems, Pattern.returnItems]
  have hseparable : ∀ item ∈ request.returnItems, ReturnClause.Separable item := by
    rw [returnItems_eq_map_held]
    refine List.forall_mem_map.mpr fun (pattern, column) hmem => ?_
    obtain ⟨hname, hfield⟩ := isName_of_mem_held h hmem
    exact Pattern.separable_returnItem hname hfield
  rw [queryText, reportedColumns_append _ hne hseparable, returnItems_eq_map_held,
    columns_eq_map_held, List.map_map]
  refine List.map_congr_left fun (pattern, column) hmem => ?_
  obtain ⟨hname, hfield⟩ := isName_of_mem_held h hmem
  rw [Function.comp_apply, Pattern.itemName_returnItem hname hfield, String.ofList_toList]

end Request

/-! ## Rows stripped of what is not reported -/

/-- A row without the columns that are not among those given. -/
def Row.only (columns : List String) (row : Row) : Row :=
  row.filter fun (column, _) => columns.contains column

lemma Row.agreeOn_only (columns : List String) (row : Row) :
    AgreeOn columns (row.only columns) row := by
  intro column hmem
  induction row with
  | nil => rfl
  | cons cell row ih =>
      obtain ⟨other, value⟩ := cell
      by_cases hother : other ∈ columns
      · rw [only, List.filter_cons_of_pos (by simpa using hother), List.lookup_cons,
          List.lookup_cons, ← ih, only]
      · have hne : (column == other) = false := beq_false_of_ne fun heq => hother (heq ▸ hmem)
        rw [only, List.filter_cons_of_neg (by simpa using hother), List.lookup_cons, hne, ← ih,
          only]

namespace Request

/-- **The query reports what reduction reads.**  The return clause names the columns of the request,
    and nothing that is not named there makes a difference to the reduction. -/
theorem reduce_reported {request : Request} (haccepted : request.Accepted) :
    reportedColumns request.queryText = request.columns
      ∧ ∀ rows : List Row, request.reduce (rows.map (Row.only (reportedColumns request.queryText)))
          = request.reduce rows := by
  have hreported := reportedColumns_queryText haccepted.wellFormed.lexical
  refine ⟨hreported, fun rows => ?_⟩
  have hagree : List.Forall₂ (Row.AgreeOn request.columns)
      (rows.map (Row.only request.columns)) rows :=
    List.forall₂_map_left_iff.mpr (List.forall₂_same.mpr fun row _ => Row.agreeOn_only _ row)
  rw [hreported, reduce, reduce, fold_eq_gather, fold_eq_gather, gather_congr hagree]

/-- A gene with its traits is reported in five columns; what else a row has does not count. -/
theorem reduce_reported_gene_with_traits :
    ∃ request : Request, request.Accepted
      ∧ reportedColumns request.queryText = ["__Geneid", "Gene.name", "__tid", "t.p", "__tr"]
      ∧ request.reduce [[("__Geneid", .bool true), ("t.p", .null)]]
          = request.reduce [[("__Geneid", .bool true), ("t.q", .null), ("t.p", .null)]] := by
  have haccepted : Accepted ⟨⟨"Gene", "Gene", [], none, false, false, false, ["name"], none⟩,
      [⟨⟨"Trait", "t", [], some ":has", false, true, false, ["p"], some "Gene"⟩, []⟩]⟩ :=
    ⟨_, ofText_gene_with_traits⟩
  obtain ⟨hreported, hreduce⟩ := reduce_reported haccepted
  have hcolumns := hreported.trans (by decide +kernel :
    _ = ["__Geneid", "Gene.name", "__tid", "t.p", "__tr"])
  have hstripped := hreduce [[("__Geneid", .bool true), ("t.q", .null), ("t.p", .null)]]
  rw [hcolumns] at hstripped
  exact ⟨_, haccepted, hcolumns, hstripped⟩

end Request

end GraphRequest
