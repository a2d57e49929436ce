import CodeImpact.Proofs.DotReading
import CodeImpact.Proofs.Table
import CodeImpact.Proofs.Unique
import CodeImpact.RelationGraph.Build
import CodeImpact.RelationGraph.Export

/-!
# Digraphs read back

The DOT text of a graph can be read, whatever characters its identifiers, names and paths have. Both
layouts have one statement for each node and for each edge; in the clustered one the statements of
the nodes stand in the subgraph of their file, and the subgraphs are in the order of the files.
-/

namespace CodeImpact

namespace Dot

mutual

/-- The statements of a part in order, those in blocks included. -/
def Part.statements : Part → List Statement
  | .statement s => [s]
  | .block _ _ parts => statementsIn parts

/-- The statements of parts in order. -/
def statementsIn : List Part → List Statement
  | [] => []
  | p :: parts => p.statements ++ statementsIn parts

end

theorem statementsIn_eq_flatMap (parts : List Part) :
    statementsIn parts = parts.flatMap Part.statements := by
  induction parts with
  | nil => rfl
  | cons p parts ih => rw [statementsIn, ih, List.flatMap_cons]

theorem statementsIn_append (parts parts' : List Part) :
    statementsIn (parts ++ parts') = statementsIn parts ++ statementsIn parts' := by
  simp [statementsIn_eq_flatMap]

theorem statementsIn_map_statement {α : Type} (f : α → Statement) (as : List α) :
    statementsIn (as.map fun a => .statement (f a)) = as.map f := by
  rw [statementsIn_eq_flatMap, List.flatMap_map, List.map_eq_flatMap]
  rfl

namespace Statement

def isNode : Statement → Bool
  | .node _ _ => true
  | _ => false

def isEdge : Statement → Bool
  | .edge _ _ _ => true
  | _ => false

/-- The value that a statement gives to a name of the block around it. -/
def value? (name : String) : Statement → Option String
  | .setting n value => if n = name then some value else none
  | _ => none

end Statement

namespace Part

/-- The statement that a part is. -/
def own? : Part → Option Statement
  | .statement s => some s
  | .block _ _ _ => none

/-- The name and the parts of a subgraph. -/
def subgraph? : Part → Option (String × List Part)
  | .statement _ => none
  | .block keyword name parts => if keyword = "subgraph" then some (name, parts) else none

end Part

theorem filterMap_subgraph?_statement {α : Type} (f : α → Statement) (as : List α) :
    (as.map fun a => Part.statement (f a)).filterMap Part.subgraph? = [] := by
  simp [List.filterMap_map, Function.comp_def, Part.subgraph?]

theorem filterMap_own?_statement {α : Type} (f : α → Statement) (as : List α) :
    (as.map fun a => Part.statement (f a)).filterMap Part.own? = as.map f := by
  rw [List.filterMap_map, ← List.filterMap_eq_map]
  rfl

/-- The nodes among the statements of parts, in order. -/
def nodes (parts : List Part) : List Statement :=
  (statementsIn parts).filter Statement.isNode

/-- The edges among the statements of parts, in order. -/
def edges (parts : List Part) : List Statement :=
  (statementsIn parts).filter Statement.isEdge

/-- The labels of a block with these parts. -/
def labels (parts : List Part) : List String :=
  (parts.filterMap Part.own?).filterMap (Statement.value? "label")

/-! ## Quoted texts -/

/-- Escaping backslashes and then quotes puts a backslash before each of them. -/
theorem toList_dotEscape (s : String) :
    (RelationGraph.dotEscape s).toList =
      s.toList.flatMap fun c => if c = '\\' ∨ c = '\"' then ['\\', c] else [c] := by
  rw [RelationGraph.dotEscape, Text.replaceChar, Text.replaceChar, String.toList_ofList,
    String.toList_ofList, List.flatMap_assoc]
  refine List.flatMap_congr fun c _ => ?_
  by_cases hback : c = '\\'
  · simp [hback]
  · by_cases hquote : c = '\"' <;> simp [hback, hquote]

/-- The lexer takes the escapes away again, up to the end of the quotes. -/
theorem foldl_dotEscape (s : String) (done : List Token) :
    (RelationGraph.dotEscape s).toList.foldl Lexer.step ⟨.inQuotes [], done⟩ =
      ⟨.inQuotes s.toList.reverse, done⟩ := by
  have hchars : ∀ (chars front : List Char),
      (chars.flatMap fun c => if c = '\\' ∨ c = '\"' then ['\\', c] else [c]).foldl Lexer.step
          ⟨.inQuotes front, done⟩ = ⟨.inQuotes (chars.reverse ++ front), done⟩ := by
    intro chars
    induction chars with
    | nil => exact fun _ => rfl
    | cons c chars ih =>
      intro front
      rw [List.flatMap_cons, List.foldl_append, List.reverse_cons, List.append_assoc,
        List.singleton_append, ← ih (c :: front)]
      by_cases hescaped : c = '\\' ∨ c = '\"'
      · simp [hescaped, Lexer.step]
      · obtain ⟨hback, hquote⟩ := not_or.1 hescaped
        simp [hback, hquote, Lexer.step]
  rw [toList_dotEscape, hchars, List.append_nil]

/-- What is escaped between quotes is read as it was. -/
theorem spells_quoted (s : String) :
    Spells ('\"' :: ((RelationGraph.dotEscape s).toList ++ ['\"'])) [.quoted s] := by
  intro done
  have hopen : Lexer.step ⟨.between, done⟩ '\"' = ⟨.inQuotes [], done⟩ := rfl
  rw [List.foldl_cons, hopen, List.foldl_append, foldl_dotEscape, List.foldl_cons, List.foldl_nil]
  simp [Lexer.step]

end Dot

namespace RelationGraph

open Dot (Spells Builds Writes Token Part Statement)

/-- The statement of a node. -/
def nodeStatement (n : GraphNode) : Statement :=
  .node n.id [("label", n.name), ("shape", dotShape n.kind)]

/-- The statement of an edge. -/
def edgeStatement (e : GraphEdge) : Statement :=
  .edge e.source e.target [("label", e.kind.word)]

/-- The statement of an edge with these ends and of this kind. -/
def keyStatement (k : EdgeKey) : Statement :=
  .edge k.source k.target [("label", k.kind.word)]

/-- A statement tells the ends and the kind of its edge, since kinds have different words. -/
theorem keyStatement_injective : Function.Injective keyStatement := by
  intro k k' h
  obtain ⟨hsource, htarget, hlabel⟩ := Statement.edge.inj h
  have hkind : k.kind = k'.kind := Relation.word_injective (by simpa using hlabel)
  cases k
  cases k'
  simp_all

/-- The tokens in the statement of a node, whatever its texts hold. -/
theorem spells_dotNode (n : GraphNode) :
    Spells (dotNode n).toList [.quoted n.id, .mark '[', .word "label", .mark '=', .quoted n.name,
      .mark ',', .word "shape", .mark '=', .word (dotShape n.kind), .mark ']', .mark ';'] := by
  have hlabel : Spells " [label=".toList [.mark '[', .word "label", .mark '='] := fun _ => rfl
  have hshape : Spells (", shape=" ++ dotShape n.kind ++ "];").toList [.mark ',', .word "shape",
      .mark '=', .word (dotShape n.kind), .mark ']', .mark ';'] := by
    cases n.kind <;> exact fun _ => rfl
  have htext : (dotNode n).toList = ('\"' :: ((dotEscape n.id).toList ++ ['\"'])) ++
      (" [label=".toList ++ (('\"' :: ((dotEscape n.name).toList ++ ['\"'])) ++
        (", shape=" ++ dotShape n.kind ++ "];").toList)) := by
    simp [dotNode]
  rw [htext]
  exact (Dot.spells_quoted n.id).append (hlabel.append ((Dot.spells_quoted n.name).append hshape))

/-- The tokens in the statement of an edge, whatever its texts hold. -/
theorem spells_dotEdge (e : GraphEdge) :
    Spells (dotEdge e).toList [.quoted e.source, .mark '-', .mark '>', .quoted e.target, .mark '[',
      .word "label", .mark '=', .quoted e.kind.word, .mark ']', .mark ';'] := by
  have harrow : Spells " -> ".toList [.mark '-', .mark '>'] := fun _ => rfl
  have hlabel : Spells (" [label=\"" ++ e.kind.word ++ "\"];").toList [.mark '[', .word "label",
      .mark '=', .quoted e.kind.word, .mark ']', .mark ';'] := by
    cases e.kind <;> exact fun _ => rfl
  have htext : (dotEdge e).toList = ('\"' :: ((dotEscape e.source).toList ++ ['\"'])) ++
      (" -> ".toList ++ (('\"' :: ((dotEscape e.target).toList ++ ['\"'])) ++
        (" [label=\"" ++ e.kind.word ++ "\"];").toList)) := by
    simp [dotEdge]
  rw [htext]
  exact (Dot.spells_quoted e.source).append
    (harrow.append ((Dot.spells_quoted e.target).append hlabel))

theorem spells_label (file : String) :
    Spells ("label=\"" ++ dotEscape file ++ "\";").toList
      [.word "label", .mark '=', .quoted file, .mark ';'] := by
  have hname : Spells "label=".toList [.word "label", .mark '='] := fun _ => rfl
  have hend : Spells ";".toList [.mark ';'] := fun _ => rfl
  have htext : ("label=\"" ++ dotEscape file ++ "\";").toList =
      "label=".toList ++ (('\"' :: ((dotEscape file).toList ++ ['\"'])) ++ ";".toList) := by
    simp
  rw [htext]
  exact hname.append ((Dot.spells_quoted file).append hend)

/-! ## Lines -/

/-- The characters of a line with its end. -/
def lineChars (line : String) : List Char :=
  line.toList ++ ['\n']

theorem toList_lines (lines : List String) :
    ("".intercalate (lines.map (· ++ "\n"))).toList = lines.flatMap lineChars := by
  rw [String.toList_intercalate]
  induction lines with
  | nil => rfl
  | cons l lines ih =>
    cases lines with
    | nil => simp [lineChars]
    | cons m lines =>
      simp only [List.map_cons] at ih ⊢
      rw [List.intercalate_cons_cons, ih, List.flatMap_cons]
      simp [lineChars]

/-- Spaces before a statement and the end of its line add nothing. -/
theorem writes_line {indent text : String} {tokens : List Token} {s : Statement}
    (hindent : Spells indent.toList []) (htext : Spells text.toList tokens)
    (hbuilds : Builds tokens [.statement s]) :
    Writes (lineChars (indent ++ text)) [.statement s] := by
  have hend : Spells ['\n'] [] := fun _ => rfl
  refine ⟨tokens, ?_, hbuilds⟩
  have hline := hindent.append (htext.append hend)
  simpa [lineChars] using hline

theorem writes_node {indent : String} (hindent : Spells indent.toList []) (n : GraphNode) :
    Writes (lineChars (indent ++ dotNode n)) [.statement (nodeStatement n)] :=
  writes_line hindent (spells_dotNode n) fun _ _ => rfl

theorem writes_edge (e : GraphEdge) :
    Writes (lineChars ("  " ++ dotEdge e)) [.statement (edgeStatement e)] :=
  writes_line (fun _ => rfl) (spells_dotEdge e) fun _ _ => rfl

/-! ## Subgraphs -/

/-- The subgraph of a file. -/
def clusterPart (g : RelationGraph) (file : String) (number : Nat) : Part :=
  .block "subgraph" ("cluster_" ++ number.repr) (.statement (.setting "label" file) ::
    (g.nodes.filter (·.file = file)).map fun n => .statement (nodeStatement n))

theorem spells_subgraph (number : Nat) :
    Spells (lineChars ("  subgraph cluster_" ++ number.repr ++ " \x7b"))
      [.word "subgraph", .word ("cluster_" ++ number.repr), .mark '\x7b'] := by
  have hfront : Spells "  subgraph ".toList [.word "subgraph"] := fun _ => rfl
  have hname : Spells (("cluster_" ++ number.repr).toList ++ [' '])
      [.word ("cluster_" ++ number.repr)] := by
    refine Dot.spells_word (by simp) fun c hc => ?_
    rw [String.toList_append, List.mem_append] at hc
    obtain hc | hc := hc
    · exact List.all_eq_true.1 (by decide : "cluster_".toList.all Dot.isWordChar = true) c hc
    · rw [Nat.toList_repr] at hc
      have hdigit := Nat.isDigit_of_mem_toDigits (by decide) (by decide) hc
      simp [Dot.isWordChar, Char.isAlphanum, hdigit]
  have hback : Spells ['\x7b', '\n'] [.mark '\x7b'] := fun _ => rfl
  have hline := hfront.append (hname.append hback)
  simpa [lineChars] using hline

/-- The lines of a file make one subgraph. -/
theorem writes_cluster (g : RelationGraph) (file : String) (number : Nat) :
    Writes ((g.dotCluster file number).flatMap lineChars) [g.clusterPart file number] := by
  have hlabel : Writes (lineChars ("    " ++ ("label=\"" ++ dotEscape file ++ "\";")))
      [.statement (.setting "label" file)] :=
    writes_line (fun _ => rfl) (spells_label file) fun _ _ => rfl
  have hnodes : Writes ((g.nodes.filter (·.file = file)).flatMap fun n =>
      lineChars ("    " ++ dotNode n))
      ((g.nodes.filter (·.file = file)).flatMap fun n => [.statement (nodeStatement n)]) :=
    Writes.flatMap fun n _ => writes_node (fun _ => rfl) n
  have hback : Spells (lineChars "  \x7d") [.mark '\x7d'] := fun _ => rfl
  have hblock := Writes.block (spells_subgraph number) (hlabel.append hnodes) hback
  simpa [dotCluster, clusterPart, lineChars, List.flatMap_map, ← List.map_eq_flatMap] using hblock

/-! ## Whole texts -/

/-- The parts of the nodes: one for each file, or one for each node. -/
def layout (g : RelationGraph) (cluster : Bool) : List Part :=
  if cluster then g.filesOfNodes.zipIdx.map fun f => g.clusterPart f.1 f.2
  else g.nodes.map fun n => .statement (nodeStatement n)

/-- What stands before the nodes. -/
def preamble : List Part :=
  [.statement (.setting "rankdir" "LR"), .statement (.defaults "node" [("fontname", "Helvetica")])]

/-- The parts of the digraph of a graph. -/
def digraphParts (g : RelationGraph) (cluster : Bool) : List Part :=
  preamble ++ (g.layout cluster ++ g.edges.map fun e => .statement (edgeStatement e))

/-- The lines of the nodes make the parts of either layout. -/
theorem writes_layout (g : RelationGraph) (cluster : Bool) :
    Writes ((if cluster then g.filesOfNodes.zipIdx.flatMap fun f => g.dotCluster f.1 f.2
        else g.nodes.map fun n => "  " ++ dotNode n).flatMap lineChars) (g.layout cluster) := by
  cases cluster with
  | true =>
    have hclusters := Writes.flatMap fun f (_ : f ∈ g.filesOfNodes.zipIdx) =>
      writes_cluster g f.1 f.2
    simpa [layout, List.flatMap_assoc, ← List.map_eq_flatMap] using hclusters
  | false =>
    have hlines : Writes (g.nodes.flatMap fun n => lineChars ("  " ++ dotNode n))
        (g.nodes.flatMap fun n => [.statement (nodeStatement n)]) :=
      Writes.flatMap fun n _ => writes_node (fun _ => rfl) n
    simpa [layout, List.flatMap_map, ← List.map_eq_flatMap] using hlines

/-- The whole text makes one digraph. -/
theorem writes_exportDot (g : RelationGraph) (cluster : Bool) :
    Writes (g.exportDot cluster).toList [.block "digraph" "blastmap" (g.digraphParts cluster)] := by
  have hfront : Spells (lineChars "digraph blastmap \x7b")
      [.word "digraph", .word "blastmap", .mark '\x7b'] := fun _ => rfl
  have hback : Spells (lineChars "\x7d") [.mark '\x7d'] := fun _ => rfl
  have hrank : Writes (lineChars "  rankdir=LR;") [.statement (.setting "rankdir" "LR")] :=
    ⟨[.word "rankdir", .mark '=', .word "LR", .mark ';'], fun _ => rfl, fun _ _ => rfl⟩
  have hfont : Writes (lineChars "  node [fontname=\"Helvetica\"];")
      [.statement (.defaults "node" [("fontname", "Helvetica")])] :=
    ⟨[.word "node", .mark '[', .word "fontname", .mark '=', .quoted "Helvetica", .mark ']',
      .mark ';'], fun _ => rfl, fun _ _ => rfl⟩
  have hedges := Writes.flatMap fun e (_ : e ∈ g.edges) => writes_edge e
  have htext := Writes.block hfront
    (hrank.append (hfont.append ((writes_layout g cluster).append hedges))) hback
  rw [exportDot, toList_lines]
  simpa [digraphParts, preamble, List.flatMap_map, ← List.map_eq_flatMap] using htext

/-! ## What the parts hold -/

theorem filter_isNode_map_nodeStatement (ns : List GraphNode) :
    (ns.map nodeStatement).filter Statement.isNode = ns.map nodeStatement :=
  List.filter_eq_self.2 (by simp [nodeStatement, Statement.isNode])

theorem filter_isNode_map_edgeStatement (es : List GraphEdge) :
    (es.map edgeStatement).filter Statement.isNode = [] :=
  List.filter_eq_nil_iff.2 (by simp [edgeStatement, Statement.isNode])

theorem statements_clusterPart (g : RelationGraph) (file : String) (number : Nat) :
    (g.clusterPart file number).statements = .setting "label" file ::
      (g.nodes.filter (·.file = file)).map nodeStatement := by
  rw [clusterPart, Part.statements, Dot.statementsIn, Dot.statementsIn_map_statement]
  rfl

theorem nodes_clusterPart (g : RelationGraph) (file : String) (number : Nat) :
    (g.clusterPart file number).statements.filter Statement.isNode =
      (g.nodes.filter (·.file = file)).map nodeStatement := by
  rw [statements_clusterPart]
  exact filter_isNode_map_nodeStatement _

theorem nodup_filesOfNodes (g : RelationGraph) : g.filesOfNodes.Nodup :=
  (pairwise_sortedSet _).imp fun h => String.ne_of_lt h

theorem mem_filesOfNodes {g : RelationGraph} {file : String} :
    file ∈ g.filesOfNodes ↔ ∃ n ∈ g.nodes, n.file = file := by
  rw [filesOfNodes, mem_sortedSet, List.mem_map]

/-- The nodes of both layouts are those of the graph. -/
theorem nodes_layout_perm (g : RelationGraph) (cluster : Bool) :
    (Dot.nodes (g.layout cluster)).Perm (g.nodes.map nodeStatement) := by
  cases cluster with
  | false =>
    have hflat : Dot.nodes (g.layout false) = g.nodes.map nodeStatement := by
      rw [Dot.nodes, layout, if_neg Bool.false_ne_true, Dot.statementsIn_map_statement,
        filter_isNode_map_nodeStatement]
    rw [hflat]
  | true =>
    have hclusters : Dot.nodes (g.layout true) =
        (g.filesOfNodes.flatMap fun file => g.nodes.filter (·.file = file)).map nodeStatement := by
      rw [Dot.nodes, layout, if_pos rfl, Dot.statementsIn_eq_flatMap, List.flatMap_map,
        List.filter_flatMap, List.map_flatMap]
      simp only [nodes_clusterPart]
      conv_rhs => rw [← List.zipIdx_map_fst 0 g.filesOfNodes, List.flatMap_map]
    have hgroups := flatMap_filter_perm (fun n : GraphNode => some n.file) (nodup_filesOfNodes g)
      fun n hn file hfile => mem_filesOfNodes.2 ⟨n, hn, Option.some.inj hfile⟩
    simp only [Option.some.injEq, Option.isNone_some, List.filter_false, List.append_nil] at hgroups
    rw [hclusters]
    exact hgroups.map nodeStatement

/-- No statement of the nodes is one of an edge. -/
theorem edges_layout (g : RelationGraph) (cluster : Bool) : Dot.edges (g.layout cluster) = [] := by
  refine List.filter_eq_nil_iff.2 fun s hs => ?_
  have hnode : ∀ {ns : List GraphNode}, s ∈ ns.map nodeStatement → ¬s.isEdge = true := by
    intro ns hs
    obtain ⟨n, -, rfl⟩ := List.mem_map.1 hs
    simp [nodeStatement, Statement.isEdge]
  cases cluster with
  | false =>
    rw [layout, if_neg Bool.false_ne_true, Dot.statementsIn_map_statement] at hs
    exact hnode hs
  | true =>
    rw [layout, if_pos rfl, Dot.statementsIn_eq_flatMap, List.flatMap_map] at hs
    obtain ⟨f, -, hs⟩ := List.mem_flatMap.1 hs
    rw [statements_clusterPart] at hs
    obtain rfl | hs := List.mem_cons.1 hs
    · exact Bool.false_ne_true
    · exact hnode hs

/-- What stands around the nodes has none. -/
theorem nodes_digraphParts (g : RelationGraph) (cluster : Bool) :
    Dot.nodes (g.digraphParts cluster) = Dot.nodes (g.layout cluster) := by
  rw [Dot.nodes, digraphParts, Dot.statementsIn_append, Dot.statementsIn_append,
    Dot.statementsIn_map_statement, List.filter_append, List.filter_append,
    filter_isNode_map_edgeStatement, List.append_nil]
  rfl

/-- The edges of the digraph are those of the graph, in order. -/
theorem edges_digraphParts (g : RelationGraph) (cluster : Bool) :
    Dot.edges (g.digraphParts cluster) = g.edges.map edgeStatement := by
  have hedges : (g.edges.map edgeStatement).filter Statement.isEdge = g.edges.map edgeStatement :=
    List.filter_eq_self.2 (by simp [edgeStatement, Statement.isEdge])
  have hlayout := edges_layout g cluster
  rw [Dot.edges] at hlayout
  rw [Dot.edges, digraphParts, Dot.statementsIn_append, Dot.statementsIn_append,
    Dot.statementsIn_map_statement, List.filter_append, List.filter_append, hedges, hlayout]
  rfl

/-- The statements of the edges stand for one list of ends and kinds. -/
theorem map_keyStatement_eq_iff (g : RelationGraph) (ks : List EdgeKey) :
    g.edges.map edgeStatement = ks.map keyStatement ↔
      ks = g.edges.map fun e => ⟨e.source, e.target, e.kind⟩ := by
  have hedges : g.edges.map edgeStatement =
      (g.edges.map fun e => (⟨e.source, e.target, e.kind⟩ : EdgeKey)).map keyStatement := by
    rw [List.map_map]
    rfl
  rw [hedges, eq_comm, (List.map_injective_iff.2 keyStatement_injective).eq_iff]

/-- A text that can be read as a digraph with the nodes and edges of a graph. The ends and kinds of
the edges can be told from it. -/
structure Shows (g : RelationGraph) (text : String) (body : List Part) : Prop where
  balanced : ∃ tokens, Dot.tokens? text = some tokens ∧ Dot.Balanced tokens
  read : Dot.read? text = some [.block "digraph" "blastmap" body]
  nodes : (Dot.nodes body).Perm (g.nodes.map nodeStatement)
  edges : Dot.edges body = g.edges.map edgeStatement
  keys : ∀ ks : List EdgeKey, Dot.edges body = ks.map keyStatement ↔
    ks = g.edges.map fun e => ⟨e.source, e.target, e.kind⟩

theorem shows_exportDot (g : RelationGraph) (cluster : Bool) :
    g.Shows (g.exportDot cluster) (g.digraphParts cluster) := by
  have hread := Dot.read?_of_writes (g.writes_exportDot cluster)
  obtain ⟨tokens, htokens, hparts⟩ := Option.bind_eq_some_iff.1 hread
  exact {
    balanced := ⟨tokens, htokens, Dot.balanced_of_parts? hparts⟩
    read := hread
    nodes := nodes_digraphParts g cluster ▸ nodes_layout_perm g cluster
    edges := edges_digraphParts g cluster
    keys := fun ks => edges_digraphParts g cluster ▸ map_keyStatement_eq_iff g ks }

/-- The subgraphs among parts, each with its name, its labels and its nodes. -/
def subgraphs (parts : List Part) : List (String × List String × List Statement) :=
  (parts.filterMap Part.subgraph?).map fun s => (s.1, Dot.labels s.2, Dot.nodes s.2)

theorem subgraphs_digraphParts (g : RelationGraph) (cluster : Bool) :
    subgraphs (g.digraphParts cluster) = subgraphs (g.layout cluster) := by
  rw [subgraphs, digraphParts, List.filterMap_append, List.filterMap_append,
    Dot.filterMap_subgraph?_statement, List.append_nil]
  rfl

/-- A subgraph has its file as its only label. -/
theorem labels_clusterPart (file : String) (ns : List GraphNode) :
    Dot.labels (.statement (.setting "label" file) ::
      ns.map fun n => .statement (nodeStatement n)) = [file] := by
  have hnodes : (ns.map nodeStatement).filterMap (Statement.value? "label") = [] := by
    simp [List.filterMap_map, Function.comp_def, nodeStatement, Statement.value?]
  rw [Dot.labels, List.filterMap_cons]
  simp only [Part.own?, Dot.filterMap_own?_statement]
  rw [List.filterMap_cons, hnodes]
  rfl

/-- There is one subgraph for each file, in order, with its label and its nodes. -/
theorem subgraphs_layout_true (g : RelationGraph) :
    subgraphs (g.layout true) = g.filesOfNodes.zipIdx.map fun f => ("cluster_" ++ f.2.repr, [f.1],
      (g.nodes.filter (·.file = f.1)).map nodeStatement) := by
  have hblocks : (g.layout true).filterMap Part.subgraph? =
      g.filesOfNodes.zipIdx.map fun f => ("cluster_" ++ f.2.repr,
        .statement (.setting "label" f.1) ::
          (g.nodes.filter (·.file = f.1)).map fun n => .statement (nodeStatement n)) := by
    rw [layout, if_pos rfl, List.filterMap_map, ← List.filterMap_eq_map]
    rfl
  rw [subgraphs, hblocks, List.map_map]
  refine List.map_congr_left fun f _ => ?_
  rw [Function.comp_apply, labels_clusterPart]
  exact congrArg (fun nodes => ("cluster_" ++ f.2.repr, [f.1], nodes)) (nodes_clusterPart g f.1 f.2)

/-- In clusters no node stands outside the subgraphs. -/
theorem own_nodes_digraphParts (g : RelationGraph) :
    ((g.digraphParts true).filterMap Part.own?).filter Statement.isNode = [] := by
  have hblocks : (g.layout true).filterMap Part.own? = [] := by
    simp [layout, clusterPart, Part.own?, List.filterMap_map, Function.comp_def]
  rw [digraphParts, List.filterMap_append, List.filterMap_append, hblocks,
    Dot.filterMap_own?_statement, List.nil_append, List.filter_append,
    filter_isNode_map_edgeStatement]
  rfl

/-- Both layouts of a graph can be read, with balanced braces, one statement for each node with its
identifier and its name, and one for each edge in order, which tells its ends and its kind. In the clustered layout no node stands
outside subgraphs, and the subgraphs are numbered in the order of the files: each has a file as its
only label, and the nodes of this file. -/
theorem exportDot_read_back (g : RelationGraph) :
    ∃ (flat clustered : List Part) (files : List String),
      g.Shows (g.exportDot false) flat ∧ g.Shows (g.exportDot true) clustered ∧
      subgraphs flat = [] ∧
      (clustered.filterMap Part.own?).filter Statement.isNode = [] ∧
      files.Pairwise (· < ·) ∧ (∀ file, file ∈ files ↔ ∃ n ∈ g.nodes, n.file = file) ∧
      subgraphs clustered = files.zipIdx.map fun f => ("cluster_" ++ f.2.repr, [f.1],
        (g.nodes.filter (·.file = f.1)).map nodeStatement) := by
  refine ⟨_, _, g.filesOfNodes, g.shows_exportDot false, g.shows_exportDot true, ?_, ?_,
    pairwise_sortedSet _, fun file => mem_filesOfNodes, ?_⟩
  · rw [subgraphs_digraphParts, subgraphs, layout, if_neg Bool.false_ne_true,
      Dot.filterMap_subgraph?_statement, List.map_nil]
  · exact own_nodes_digraphParts g
  · rw [subgraphs_digraphParts, subgraphs_layout_true]

end RelationGraph

end CodeImpact
