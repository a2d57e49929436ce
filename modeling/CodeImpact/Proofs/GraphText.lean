import CodeImpact.Proofs.JsonReading
import CodeImpact.RelationGraph.Export
import Mathlib.Data.List.Basic
import Mathlib.Data.List.Nodup

/-!
# Reading back exported graphs

A graph is read back from its document in both layouts. Its JSON lines are the lines of their text,
one for each node and then one for each edge, and each of them is read back as what it was written
for. Positions have to fit in 64 bits; names and paths may hold any characters.

Three facts stand for the JSON library here: `Json.parse?_compact` and `Json.parse?_pretty`, by which
its reader takes back what its writers give in the two layouts, and
`Json.newline_not_mem_compactChars`, by which a compact value stays on one line. The rest is about the
fields of nodes and edges and does not look into the text of a value.
-/

namespace CodeImpact

/-! ## Fields -/

namespace Json

/-- Each of the fields has its value; the value read from may have more fields. -/
def Holds (v : Json) (fields : List (String × Json)) : Prop :=
  ∀ f ∈ fields, v.field? f.1 = some f.2

theorem holds_obj {fields : List (String × Json)} (h : (fields.map Prod.fst).Nodup) :
    (obj fields).Holds fields := by
  intro f hf
  have hsome : (fields.reverse.find? fun g => g.1 = f.1).isSome = true :=
    List.find?_isSome.2 ⟨f, List.mem_reverse.2 hf, by simp⟩
  obtain ⟨g, hg⟩ := Option.isSome_iff_exists.1 hsome
  have hname : g.1 = f.1 := by simpa using List.find?_some hg
  have hmem : g ∈ fields := List.mem_reverse.1 (List.mem_of_find?_eq_some hg)
  obtain rfl : g = f := List.inj_on_of_nodup_map h hmem hf hname
  rw [field?, hg, Option.map_some]

theorem field?_eq_none {fields : List (String × Json)} {name : String}
    (h : name ∉ fields.map Prod.fst) : (obj fields).field? name = none := by
  rw [field?, Option.map_eq_none_iff, List.find?_eq_none]
  intro f hf hname
  refine h (List.mem_map.2 ⟨f, List.mem_reverse.1 hf, ?_⟩)
  simpa using hname

section Decoding

variable {α : Type} {decode : Json → Option α} {name : String} {v w : Json} {a : α}

theorem required?_eq_some (hfield : v.field? name = some w) (hdecode : decode w = some a) :
    v.required? name decode = some a := by
  rw [required?, hfield, Option.bind_some, hdecode]

theorem required?_text {s : String} (hfield : v.field? name = some (.str s)) :
    v.required? name asText? = some s :=
  required?_eq_some hfield rfl

theorem required?_nat {n : Nat} (hfield : v.field? name = some (.nat n)) (h : n < Text.wordBound) :
    v.required? name asNat? = some n :=
  required?_eq_some hfield (by simp [nat, asNat?, h])

theorem optional?_eq_some (hfield : v.field? name = some w) (hnull : w ≠ .null)
    (hdecode : decode w = some a) : v.optional? name decode = some (some a) := by
  cases w <;> first | exact absurd rfl hnull | simp [optional?, hfield, hdecode]

theorem optional?_none (hfield : v.field? name = none) : v.optional? name decode = some none := by
  rw [optional?, hfield]

end Decoding

/-- A list is read back if its items are. -/
theorem listOf?_arr_map {α : Type} {encode : α → Json} {decode : Json → Option α} {l : List α}
    (h : ∀ a ∈ l, decode (encode a) = some a) : listOf? decode (.arr (l.map encode)) = some l := by
  rw [listOf?, asList?, Option.bind_some]
  induction l with
  | nil => rfl
  | cons a l ih =>
    obtain ⟨ha, hl⟩ := List.forall_mem_cons.1 h
    simp [ha, ih hl]

end Json

open Json (Writable Holds holds_obj required?_eq_some required?_text required?_nat)

/-! ## Positions -/

namespace Position

/-- Lines and columns that fit in 64 bits. -/
def Fits (p : Position) : Prop :=
  p.startLine < Text.wordBound ∧ p.startCol < Text.wordBound ∧
    p.endLine < Text.wordBound ∧ p.endCol < Text.wordBound

instance (p : Position) : Decidable p.Fits :=
  inferInstanceAs (Decidable (_ ∧ _))

variable {p : Position}

theorem ofJson?_toJson (h : p.Fits) : ofJson? p.toJson = some p := by
  obtain ⟨hline, hcol, hendLine, hendCol⟩ := h
  have hholds : p.toJson.Holds _ := holds_obj (by simp)
  simp only [Holds, List.forall_mem_cons] at hholds
  obtain ⟨line, col, endLine, endCol, -⟩ := hholds
  simp only [ofJson?, required?_nat line hline, required?_nat col hcol,
    required?_nat endLine hendLine, required?_nat endCol hendCol, Option.bind_eq_bind,
    Option.bind_some]

theorem writable_toJson (h : p.Fits) : Writable 1 p.toJson := by
  obtain ⟨hline, hcol, hendLine, hendCol⟩ := h
  refine .obj ?_
  simp only [List.forall_mem_cons]
  exact ⟨.nat hline, .nat hcol, .nat hendLine, .nat hendCol, nofun⟩

end Position

/-! ## Nodes -/

namespace GraphNode

/-- Nodes whose position fits in 64 bits. -/
def Fits (n : GraphNode) : Prop :=
  ∀ p ∈ n.position, p.Fits

instance (n : GraphNode) : Decidable n.Fits :=
  inferInstanceAs (Decidable (∀ p ∈ n.position, p.Fits))

variable {n : GraphNode}

/-- The names of the fields differ, also with a tag among them. -/
theorem nodup_names (n : GraphNode) : ("type" :: n.jsonFields.map Prod.fst).Nodup := by
  cases hposition : n.position <;> simp [jsonFields, hposition, Json.optionalField]

theorem ofWord?_kind (k : NodeKind) :
    ofWord? NodeKind.all NodeKind.word (.str k.word) = some k := by
  cases k <;> rfl

/-- Only the fields of the node count, so it is also read from a value with more fields. -/
theorem ofJson?_eq_some (hfits : n.Fits) {v : Json} (h : v.Holds n.jsonFields)
    (hnone : n.position = none → v.field? "position" = none) : ofJson? v = some n := by
  simp only [Holds, jsonFields, List.forall_mem_append, List.forall_mem_cons] at h
  obtain ⟨⟨id, name, kind, file, filePath, -⟩, hoptional⟩ := h
  have hposition : v.optional? "position" Position.ofJson? = some n.position := by
    cases hp : n.position with
    | none => exact Json.optional?_none (hnone hp)
    | some p =>
      have hfield : v.field? "position" = some p.toJson :=
        hoptional ("position", p.toJson) (by simp [hp, Json.optionalField])
      exact Json.optional?_eq_some hfield nofun (Position.ofJson?_toJson (hfits p hp))
  simp only [ofJson?, required?_text id, required?_text name,
    required?_eq_some kind (ofWord?_kind _), required?_text file, required?_text filePath,
    hposition, Option.bind_eq_bind, Option.bind_some]

theorem ofJson?_toJson (h : n.Fits) : ofJson? n.toJson = some n := by
  have hnames := (List.nodup_cons.1 n.nodup_names).2
  refine ofJson?_eq_some h (holds_obj hnames) fun hposition => Json.field?_eq_none ?_
  simp [jsonFields, hposition, Json.optionalField]

theorem writable_jsonFields (h : n.Fits) : ∀ f ∈ n.jsonFields, Writable 1 f.2 := by
  simp only [jsonFields, List.forall_mem_append, List.forall_mem_cons]
  refine ⟨⟨.str _, .str _, .str _, .str _, .str _, nofun⟩, fun f hf => ?_⟩
  obtain ⟨p, hp, rfl⟩ : ∃ p, n.position = some p ∧ ("position", p.toJson) = f := by
    simpa [Json.optionalField] using hf
  exact Position.writable_toJson (h p hp)

end GraphNode

/-! ## Edges -/

namespace GraphEdge

variable {e : GraphEdge}

theorem ofWord?_kind (k : Relation) :
    ofWord? Relation.all Relation.word (.str k.word) = some k := by
  cases k <;> rfl

theorem ofJson?_eq_some {v : Json} (h : v.Holds e.jsonFields) : ofJson? v = some e := by
  simp only [Holds, jsonFields, List.forall_mem_cons] at h
  obtain ⟨source, target, kind, sourcePath, targetPath, -⟩ := h
  simp only [ofJson?, required?_text source, required?_text target,
    required?_eq_some kind (ofWord?_kind _), required?_text sourcePath, required?_text targetPath,
    Option.bind_eq_bind, Option.bind_some]

theorem ofJson?_toJson (e : GraphEdge) : ofJson? e.toJson = some e :=
  ofJson?_eq_some (holds_obj (by simp [jsonFields]))

theorem writable_jsonFields (e : GraphEdge) : ∀ f ∈ e.jsonFields, Writable 1 f.2 := by
  simp only [jsonFields, List.forall_mem_cons]
  exact ⟨.str _, .str _, .str _, .str _, .str _, nofun⟩

end GraphEdge

/-! ## Records -/

/-- What one of the JSON lines stands for. -/
inductive GraphRecord
  | node (n : GraphNode)
  | edge (e : GraphEdge)
  deriving DecidableEq, Repr, Inhabited

namespace GraphRecord

/-- The record with its tag. -/
def toJson : GraphRecord → Json
  | .node n => .obj (("type", .str "node") :: n.jsonFields)
  | .edge e => .obj (("type", .str "edge") :: e.jsonFields)

/-- Reads what the tag says. -/
def ofJson? (v : Json) : Option GraphRecord := do
  let tag ← v.required? "type" Json.asText?
  if tag = "node" then (GraphNode.ofJson? v).map .node
  else if tag = "edge" then (GraphEdge.ofJson? v).map .edge
  else none

/-- Records whose positions fit in 64 bits. -/
def Fits : GraphRecord → Prop
  | .node n => n.Fits
  | .edge _ => True

theorem ofJson?_toJson {r : GraphRecord} (h : r.Fits) : ofJson? r.toJson = some r := by
  cases r with
  | node n =>
    have hholds : (toJson (.node n)).Holds _ := holds_obj n.nodup_names
    obtain ⟨htag, hfields⟩ := List.forall_mem_cons.1 hholds
    have hnode : GraphNode.ofJson? (toJson (.node n)) = some n := by
      refine GraphNode.ofJson?_eq_some h hfields fun hposition => Json.field?_eq_none ?_
      simp [GraphNode.jsonFields, hposition, Json.optionalField]
    simp [ofJson?, required?_text htag, hnode]
  | edge e =>
    have hholds : (toJson (.edge e)).Holds _ := holds_obj (by simp [GraphEdge.jsonFields])
    obtain ⟨htag, hfields⟩ := List.forall_mem_cons.1 hholds
    simp [ofJson?, required?_text htag, GraphEdge.ofJson?_eq_some hfields]

theorem writable_toJson {r : GraphRecord} (h : r.Fits) : Writable 2 r.toJson := by
  cases r with
  | node n => exact .obj (List.forall_mem_cons.2 ⟨.str _, GraphNode.writable_jsonFields h⟩)
  | edge e => exact .obj (List.forall_mem_cons.2 ⟨.str _, e.writable_jsonFields⟩)

theorem compact_ne_empty (r : GraphRecord) : r.toJson.compact ≠ "" := by
  intro h
  have hchars : r.toJson.compactChars = [] := by
    rw [← String.toList_ofList (l := r.toJson.compactChars), ← Json.compact, h, String.toList_empty]
  cases r <;> cases hchars

end GraphRecord

/-! ## Graphs -/

/-- The lines of a text; the empty text has none. -/
def recordLines (text : String) : List String :=
  if text.isEmpty then [] else (text.toList.splitOn '\n').map String.ofList

/-- Lines are found again unless they are empty or have line breaks in them. -/
theorem recordLines_intercalate {lines : List String} (hempty : ∀ l ∈ lines, l ≠ "")
    (hbreak : ∀ l ∈ lines, '\n' ∉ l.toList) : recordLines ("\n".intercalate lines) = lines := by
  cases lines with
  | nil => rfl
  | cons l lines =>
    have htext : ("\n".intercalate (l :: lines)).toList.splitOn '\n' =
        (l :: lines).map String.toList := by
      rw [String.toList_intercalate]
      refine List.splitOn_intercalate '\n' ?_ (by simp)
      simpa using hbreak
    -- The empty text would have one line, and that line would be empty.
    have hne : "\n".intercalate (l :: lines) ≠ "" := by
      intro hnil
      rw [hnil] at htext
      have hline : l.toList = [] := by
        simpa using (List.cons.inj htext).1.symm
      exact hempty l List.mem_cons_self (String.toList_eq_nil_iff.1 hline)
    rw [recordLines, if_neg (by simpa using hne), htext, List.map_map]
    simp

namespace RelationGraph

/-- Graphs whose positions fit in 64 bits. -/
def Fits (g : RelationGraph) : Prop :=
  ∀ n ∈ g.nodes, n.Fits

instance (g : RelationGraph) : Decidable g.Fits :=
  inferInstanceAs (Decidable (∀ n ∈ g.nodes, n.Fits))

variable {g : RelationGraph}

theorem ofJson?_toJson (h : g.Fits) : ofJson? g.toJson = some g := by
  have hholds : g.toJson.Holds _ := holds_obj (by simp)
  simp only [Holds, List.forall_mem_cons] at hholds
  obtain ⟨nodes, edges, -⟩ := hholds
  have hnodes := Json.listOf?_arr_map fun n hn => GraphNode.ofJson?_toJson (h n hn)
  have hedges := Json.listOf?_arr_map fun e (_ : e ∈ g.edges) => GraphEdge.ofJson?_toJson e
  simp only [ofJson?, required?_eq_some nodes hnodes, required?_eq_some edges hedges,
    Option.bind_eq_bind, Option.bind_some]

theorem writable_toJson (h : g.Fits) : Writable 4 g.toJson := by
  refine .obj ?_
  simp only [List.forall_mem_cons]
  refine ⟨.arr ?_, .arr ?_, nofun⟩
  · intro v hv
    obtain ⟨n, hn, rfl⟩ := List.mem_map.1 hv
    exact .obj (GraphNode.writable_jsonFields (h n hn))
  · intro v hv
    obtain ⟨e, _, rfl⟩ := List.mem_map.1 hv
    exact .obj e.writable_jsonFields

/-- A record for each node and then for each edge. -/
def records (g : RelationGraph) : List GraphRecord :=
  g.nodes.map .node ++ g.edges.map .edge

theorem jsonRecords_eq (g : RelationGraph) : g.jsonRecords = g.records.map GraphRecord.toJson := by
  rw [records, List.map_append, List.map_map, List.map_map]
  rfl

theorem fits_of_mem_records (h : g.Fits) {r : GraphRecord} (hr : r ∈ g.records) : r.Fits := by
  rcases List.mem_append.1 hr with hr | hr
  · obtain ⟨n, hn, rfl⟩ := List.mem_map.1 hr
    exact h n hn
  · obtain ⟨e, _, rfl⟩ := List.mem_map.1 hr
    trivial

/-- Each line holds the record of one node or edge. -/
theorem recordLines_exportJsonLines (h : g.Fits) :
    recordLines g.exportJsonLines = g.records.map fun r => r.toJson.compact := by
  have hlines : g.jsonRecords.map Json.compact = g.records.map fun r => r.toJson.compact := by
    rw [jsonRecords_eq, List.map_map]
    rfl
  rw [exportJsonLines, hlines]
  refine recordLines_intercalate ?_ ?_
  · intro l hl
    obtain ⟨r, _, rfl⟩ := List.mem_map.1 hl
    exact r.compact_ne_empty
  · intro l hl
    obtain ⟨r, hr, rfl⟩ := List.mem_map.1 hl
    rw [Json.compact, String.toList_ofList]
    exact Json.newline_not_mem_compactChars (r.writable_toJson (fits_of_mem_records h hr))

/-- A graph is read back from its document in both layouts, and its nodes and edges, in order, from
its JSON lines. -/
theorem exports_read_back (h : g.Fits) :
    (∀ minify, (Json.parse? (g.exportJson minify)).bind ofJson? = some g) ∧
      (recordLines g.exportJsonLines).map
          (fun line => (Json.parse? line).bind GraphRecord.ofJson?) =
        g.records.map some := by
  constructor
  · intro minify
    have hwritable := (writable_toJson h).mono (show 4 ≤ Json.Builder.depthLimit by decide)
    cases minify with
    | true =>
      rw [exportJson, if_pos rfl, Json.parse?_compact hwritable, Option.bind_some, ofJson?_toJson h]
    | false =>
      rw [exportJson, if_neg (by decide), Json.parse?_pretty hwritable, Option.bind_some,
        ofJson?_toJson h]
  · rw [recordLines_exportJsonLines h, List.map_map]
    refine List.map_congr_left fun r hr => ?_
    have hfits := fits_of_mem_records h hr
    have hwritable := r.writable_toJson hfits |>.mono (show 2 ≤ Json.Builder.depthLimit by decide)
    rw [Function.comp_apply, Json.parse?_compact hwritable, Option.bind_some,
      GraphRecord.ofJson?_toJson hfits]

/-- A node and an edge whose texts need every kind of escape. -/
def escapedGraph : RelationGraph where
  nodes := [⟨"/p/a.ts::say \"hi\"\\", "\n\r\t\x08\x0c", .function, "\x00\x1fé", "/p/a.ts\nb",
    some ⟨1, 0, 18446744073709551615, 7⟩⟩, ⟨"", "∅😀", .file, "", "", none⟩]
  edges := [⟨"\"", "\\u0041", .callsImplementation, "\n", "\n\n"⟩]

theorem escapedGraph_read_back : escapedGraph.Fits ∧
    (∀ minify, (Json.parse? (escapedGraph.exportJson minify)).bind ofJson? = some escapedGraph) ∧
      (recordLines escapedGraph.exportJsonLines).map
          (fun line => (Json.parse? line).bind GraphRecord.ofJson?) =
        escapedGraph.records.map some :=
  ⟨by decide, exports_read_back (by decide)⟩

end RelationGraph

end CodeImpact
