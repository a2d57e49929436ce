import CodeImpact.Proofs.Chains

/-!
# Chains in any order

Calls may be asked for their chains in any order and repeatedly, with one memory. A call that comes
after a call on its receiver path goes on from what is remembered of that one. As long as the earlier
call can be read, this gives the chain that the later one has without a memory. If it cannot, only
its empty chain is remembered, and the names above it are taken for the whole chain.
-/

open Relation (ReflTransGen)

namespace CodeImpact

namespace Grammar

variable {g : Grammar} {src : SourceText} {path : String}

/-- The chains of nodes that are asked for one after the other. -/
def recallChains (g : Grammar) (src : SourceText) (path : String) :
    List Tree → ChainMemo → List (List Link)
  | [], _ => []
  | t :: rest, memo =>
    let (links, memo) := g.recallChain src path t memo
    links :: g.recallChains src path rest memo

/-- The chains that are remembered are passed on from call to call. -/
theorem recallChains_cons (t : Tree) (rest : List Tree) (memo : ChainMemo) :
    g.recallChains src path (t :: rest) memo = (g.recallChain src path t memo).1 ::
      g.recallChains src path rest (g.recallChain src path t memo).2 :=
  rfl

/-! ## Going on above a remembered node -/

/-- A receiver path runs through the nodes above each node on it. -/
theorem OnPath.exists_above {x y : Focus} (h : g.OnPath x y) : ∃ above : List Focus,
    receiverPath g.receiver x.node = above.map (·.node) ++ receiverPath g.receiver y.node ∧
      ∀ z ∈ above, g.OnPath x z ∧ g.OnPath z y ∧ z ≠ y := by
  induction h using ReflTransGen.head_induction_on with
  | refl => exact ⟨[], rfl, by simp⟩
  | @head x z hreceiver hpath ih =>
    obtain ⟨above, hnodes, habove⟩ := ih
    refine ⟨x :: above, ?_, List.forall_mem_cons.2 ⟨⟨.refl, hpath.head hreceiver, ?_⟩, ?_⟩⟩
    · rw [receiverPath_of_some hreceiver.2, hnodes, List.map_cons, List.cons_append]
    · rintro rfl
      obtain ⟨i, habove⟩ := hreceiver.1.above_eq
      have hle := (Focus.above_suffix (OnPath.reaches hpath)).length_le
      rw [habove, List.length_cons] at hle
      omega
    · intro z hz
      obtain ⟨hxz, hzy⟩ := habove z hz
      exact ⟨hxz.head hreceiver, hzy⟩

/-- Nodes that are not remembered are walked from what is below them. -/
theorem recallWalk_append {upper below : List Tree} {memo : ChainMemo}
    (h : ∀ t ∈ upper, memo[t.id path]? = none) :
    (g.recallWalk src path (upper ++ below) memo).1 =
      upper.foldr (fun n w => w.step (g.step src n)) (g.recallWalk src path below memo).1 := by
  induction upper with
  | nil => rfl
  | cons t upper ih =>
    obtain ⟨hself, hrest⟩ := List.forall_mem_cons.1 h
    simp only [List.cons_append, recallWalk, hself, ih hrest, List.foldr_cons]

/-- Above a node that is remembered with an empty chain, a path is walked as if it began there. -/
theorem recallChain_above_empty {c e : Tree} {upper : List Tree} {memo : ChainMemo}
    (hpath : receiverPath g.receiver c = upper ++ receiverPath g.receiver e)
    (hmiss : ∀ t ∈ upper, memo[t.id path]? = none) (hhit : memo[e.id path]? = some []) :
    (g.recallChain src path c memo).1 =
      (readSteps? (upper.reverse.map (g.step src))).getD [] := by
  have hwalk : (g.recallWalk src path (receiverPath g.receiver c) memo).1 =
      upper.foldr (fun n w => w.step (g.step src n)) Walk.start := by
    rw [hpath, recallWalk_append hmiss, ParsedFile.recallWalk_of_hit hhit]
    rfl
  rw [← links_foldr, ← hwalk]
  rfl

end Grammar

namespace ParsedFile

variable {f : ParsedFile} {calls : List Focus}

/-- Each call is remembered when it is asked for, or the earlier calls on its path can be read. -/
def Resumable (f : ParsedFile) (calls : List Focus) : Prop :=
  ∀ i c, calls[i]? = some c → f.Resumes (calls.take i) c

/-- Calls that are asked for after those that are remembered are read as without a memory. -/
theorem recallChains_of_remembers (hids : f.Identified) {asked : List Focus} {memo : ChainMemo}
    (h : f.Remembers asked memo) (hcalls : ∀ c ∈ calls, c.Occurs f.tree)
    (hresumes : ∀ i c, calls[i]? = some c → f.Resumes (asked ++ calls.take i) c) :
    f.grammar.recallChains f.source f.absolutePath (calls.map (·.node)) memo =
      calls.map fun c => f.grammar.chain f.source c.node := by
  induction calls generalizing asked memo with
  | nil => rfl
  | cons c rest ih =>
    obtain ⟨hc, hrest⟩ := List.forall_mem_cons.1 hcalls
    have hfirst : f.Resumes asked c := by simpa using hresumes 0 c rfl
    obtain ⟨hchain, hmemo⟩ := recallChain_eq hids h hc hfirst
    have hlater : ∀ i x, rest[i]? = some x → f.Resumes (asked ++ [c] ++ rest.take i) x := by
      intro i x hx
      simpa using hresumes (i + 1) x hx
    rw [List.map_cons, List.map_cons, Grammar.recallChains_cons, hchain, ih hmemo hrest hlater]

/-- The chain of a call without a memory. -/
theorem recallChain_empty (hids : f.Identified) {c : Focus} (hc : c.Occurs f.tree) :
    (f.grammar.recallChain f.source f.absolutePath c.node {}).1 =
      f.grammar.chain f.source c.node :=
  (recallChain_eq hids remembers_nil hc (.inr (by simp))).1

/-- After one call, nothing above it on a path is remembered. -/
theorem Remembers.get_above (hids : f.Identified) {e x : Focus} {memo : ChainMemo}
    (h : f.Remembers [e] memo) (hx : x.Occurs f.tree) (hon : f.grammar.OnPath x e) (hne : x ≠ e) :
    memo[x.node.id f.absolutePath]? = none := by
  refine Option.eq_none_iff_forall_ne_some.2 fun links hlinks => hne ?_
  obtain ⟨e', he', y, hy, hid, -⟩ := (h.get_iff _ links).1 hlinks
  obtain rfl := List.mem_singleton.1 he'
  obtain rfl := hids y x ((hx.trans hon.reaches).trans hy.reaches) hx hid
  exact Focus.eq_of_reaches hon.reaches hy.reaches

/-- After a call on its path that cannot be read, a call has the chain that the steps above that one
spell. -/
theorem recallChains_above_unreadable (hids : f.Identified) {c e : Focus} (hc : c.Occurs f.tree)
    (hon : f.grammar.OnPath c e) (hunreadable : ¬ f.grammar.Readable f.source e.node)
    {upper : List Tree} (hpath : receiverPath f.grammar.receiver c.node =
      upper ++ receiverPath f.grammar.receiver e.node) :
    f.grammar.recallChains f.source f.absolutePath [e.node, c.node] {} =
      [[], (readSteps? (upper.reverse.map (f.grammar.step f.source))).getD []] := by
  have hempty : f.grammar.chain f.source e.node = [] := by
    rw [Grammar.chain_eq, not_not.1 hunreadable]
    rfl
  obtain ⟨hchain, hmemo⟩ :=
    recallChain_eq hids remembers_nil (hc.trans hon.reaches) (.inr (by simp))
  have hhit := (hmemo.get_iff (e.node.id f.absolutePath) []).2
    ⟨e, List.mem_singleton_self e, e, .refl, rfl, hempty⟩
  have hmiss : ∀ t ∈ upper, (f.grammar.recallChain f.source f.absolutePath e.node
      {}).2[t.id f.absolutePath]? = none := by
    obtain ⟨above, habove, hstrict⟩ := hon.exists_above
    rw [List.append_cancel_right (hpath.symm.trans habove), List.forall_mem_map]
    intro x hx
    obtain ⟨hcx, hxe, hne⟩ := hstrict x hx
    exact hmemo.get_above hids (hc.trans hcx.reaches) hxe hne
  rw [Grammar.recallChains_cons, Grammar.recallChains_cons, hchain, hempty,
    Grammar.recallChain_above_empty hpath hmiss hhit]
  rfl

/-- However calls are asked for their chains one after the other with one memory, each has the chain
that it has without a memory, which is what the steps of its receiver path spell, as long as no call
goes on from an earlier one that cannot be read. -/
theorem chains_in_any_order (f : ParsedFile) (hids : f.Identified) (calls : List Focus)
    (hcalls : ∀ c ∈ calls, c.Occurs f.tree) (hresumable : f.Resumable calls) :
    f.grammar.recallChains f.source f.absolutePath (calls.map (·.node)) {} =
      calls.map (fun c => (f.grammar.recallChain f.source f.absolutePath c.node {}).1) ∧
    ∀ c ∈ calls, (f.grammar.recallChain f.source f.absolutePath c.node {}).1 =
      (readSteps? ((receiverPath f.grammar.receiver c.node).reverse.map
        (f.grammar.step f.source))).getD [] := by
  have hfresh : ∀ c ∈ calls, (f.grammar.recallChain f.source f.absolutePath c.node {}).1 =
      f.grammar.chain f.source c.node := fun c hc => recallChain_empty hids (hcalls c hc)
  refine ⟨?_, fun c hc => (hfresh c hc).trans (Grammar.chain_eq _ _ _)⟩
  rw [recallChains_of_remembers hids remembers_nil hcalls hresumable]
  exact List.map_congr_left fun c hc => (hfresh c hc).symm

/-- A call of a method on `atom`. -/
def innerCall (atom : Tree) : Tree := invocation (some "object") atom (atom.stop + 1)

/-- A call of a method on the result of that call. -/
def outerCall (atom : Tree) : Tree := invocation none (innerCall atom) (atom.stop + 5)

def outerFocus (atom : Tree) : Focus := ⟨outerCall atom, []⟩

def innerFocus (atom : Tree) : Focus := ⟨innerCall atom, [(0, outerCall atom)]⟩

theorem receiver_outerCall (atom : Tree) :
    (Grammar.java.receiver (outerCall atom).kind).bind (·.pick (outerCall atom)) =
      some (innerCall atom) :=
  rfl

theorem onPath_innerFocus (atom : Tree) :
    Grammar.java.OnPath (outerFocus atom) (innerFocus atom) :=
  .single ⟨.intro rfl, receiver_outerCall atom⟩

theorem innerFocus_occurs (atom : Tree) : (innerFocus atom).Occurs (outerCall atom) :=
  (onPath_innerFocus atom).reaches

/-- The receiver of both calls of the sample. -/
def nameAtom : Tree := ⟨"identifier", true, some "object", 0, 1, []⟩

theorem nestedCall_chains_inner_first : nestedCall.Identified ∧
    nestedCall.Resumable [innerFocus nameAtom, outerFocus nameAtom, innerFocus nameAtom] ∧
    nestedCall.grammar.recallChains nestedCall.source nestedCall.absolutePath
        [innerCall nameAtom, outerCall nameAtom, innerCall nameAtom] {} =
      [[⟨"a", .member⟩, ⟨"b", .function⟩],
        [⟨"a", .member⟩, ⟨"b", .function⟩, ⟨"c", .function⟩],
        [⟨"a", .member⟩, ⟨"b", .function⟩]] := by
  have hoccurs : ∀ c ∈ [innerFocus nameAtom, outerFocus nameAtom, innerFocus nameAtom],
      c.Occurs nestedCall.tree := by
    simp only [List.forall_mem_cons]
    exact ⟨innerFocus_occurs nameAtom, .refl, innerFocus_occurs nameAtom, by simp⟩
  have hreadable : ∀ c ∈ [innerFocus nameAtom, outerFocus nameAtom, innerFocus nameAtom],
      nestedCall.grammar.Readable nestedCall.source c.node := by
    decide +kernel
  have hresumable : nestedCall.Resumable
      [innerFocus nameAtom, outerFocus nameAtom, innerFocus nameAtom] :=
    fun i c _ => .inr fun e he _ => hreadable e (List.mem_of_mem_take he)
  obtain ⟨hrun, hfresh⟩ := chains_in_any_order nestedCall identified_nestedCall _ hoccurs hresumable
  refine ⟨identified_nestedCall, hresumable, (hrun.trans (List.map_congr_left hfresh)).trans ?_⟩
  decide +kernel

/-- A receiver that is not a name. -/
def literalAtom : Tree := ⟨"string_literal", true, some "object", 0, 3, []⟩

/-- A call whose receiver is a call on a literal. -/
def literalCall : ParsedFile :=
  { nestedCall with source := ⟨"\"x\".b().c()".toUTF8⟩, tree := outerCall literalAtom }

theorem identified_literalCall : literalCall.Identified := by
  refine identified_of_nodup ?_ (by decide +kernel)
  exact fullyNamed_invocation (fullyNamed_invocation (.intro rfl (by simp [literalAtom])))

theorem literalCall_chain_depends_on_order : literalCall.Identified ∧
    (∀ c ∈ [innerFocus literalAtom, outerFocus literalAtom],
      c.Occurs literalCall.tree ∧ literalCall.grammar.isCall c.node = true) ∧
    literalCall.grammar.recallChains literalCall.source literalCall.absolutePath
        [innerCall literalAtom, outerCall literalAtom] {} = [[], [⟨"c", .function⟩]] ∧
    (literalCall.grammar.recallChain literalCall.source literalCall.absolutePath
        (outerCall literalAtom) {}).1 = [] := by
  have hpath : receiverPath Grammar.java.receiver (outerCall literalAtom) =
      [outerCall literalAtom] ++ receiverPath Grammar.java.receiver (innerCall literalAtom) :=
    Grammar.receiverPath_of_some (receiver_outerCall literalAtom)
  have hrun := recallChains_above_unreadable identified_literalCall
    (c := outerFocus literalAtom) .refl (onPath_innerFocus literalAtom) (by decide +kernel) hpath
  refine ⟨identified_literalCall, ?_, hrun.trans (by decide +kernel), ?_⟩
  · simp only [List.forall_mem_cons]
    exact ⟨⟨innerFocus_occurs literalAtom, by decide⟩, ⟨.refl, by decide⟩, by simp⟩
  · have hfresh := recallChain_empty identified_literalCall (c := outerFocus literalAtom) .refl
    exact hfresh.trans (by decide +kernel)

end ParsedFile

end CodeImpact
