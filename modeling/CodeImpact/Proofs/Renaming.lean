import CodeImpact.Proofs.CallOwners
import CodeImpact.Proofs.Relations

/-!
# Calls of renamed imports

A file can import a symbol under a name of its own. A call of that name, and a call on a member of
that type, leads to the right file, but there it is looked up under the local name: it is linked as
if the file had exported the local name. Only a call on the imported name itself is looked up under
the name that the file exports.
-/

namespace CodeImpact

/-! ## What imports bind -/

namespace Bindings

variable {b : Bindings}

theorem importedPath?_of_origins {name path : String} (h : b.origins.get? name = some path) :
    b.importedPath? name = some path := by
  rw [importedPath?, h, Option.some_or]

/-- The same names are imported from the same files. -/
def SameImports (b c : Bindings) : Prop :=
  b.origins = c.origins ∧ b.exportedNames = c.exportedNames

theorem SameImports.trans {b c d : Bindings} (h : b.SameImports c) (h' : c.SameImports d) :
    b.SameImports d :=
  ⟨h.1.trans h'.1, h.2.trans h'.2⟩

/-- A run of steps that bind no imports binds none. -/
theorem sameImports_foldl {α : Type} {step : Bindings → α → Bindings}
    (hstep : ∀ b a, (step b a).SameImports b) (items : List α) (b : Bindings) :
    (items.foldl step b).SameImports b := by
  induction items generalizing b with
  | nil => exact ⟨rfl, rfl⟩
  | cons a rest ih => exact (ih (step b a)).trans (hstep b a)

theorem sameImports_recordInstance (b : Bindings) (scope : Scope) (member type : String)
    (overwrite : Bool) : (b.recordInstance scope member type overwrite).SameImports b := by
  simp only [recordInstance]
  split <;> exact ⟨rfl, rfl⟩

/-- Binds an imported symbol. -/
def bindSymbol (b : Bindings) (e : ImportedSymbol × String) : Bindings :=
  b.bindImport e.1.localName e.1.name e.2

/-- The last import under a name decides where it comes from, and which name it has there. -/
theorem foldl_bindSymbol {symbols : List (ImportedSymbol × String)} {name : String}
    {e : ImportedSymbol × String}
    (h : (symbols.filter fun e => e.1.localName = name).getLast? = some e) (b : Bindings) :
    (symbols.foldl bindSymbol b).origins.get? name = some e.2 ∧
      (name ≠ e.1.name → (symbols.foldl bindSymbol b).exportedName name = e.1.name) := by
  induction symbols using List.reverseRecOn with
  | nil => cases h
  | append_singleton symbols last ih =>
    rw [List.foldl_append, List.foldl_cons, List.foldl_nil]
    rw [List.filter_append, List.getLast?_append] at h
    by_cases hlast : last.1.localName = name
    · obtain rfl : last = e := by simpa [hlast] using h
      refine ⟨by simp [bindSymbol, bindImport, hlast], fun hne => ?_⟩
      simp [bindSymbol, bindImport, exportedName, hlast, hne]
    · obtain ⟨horigin, hexported⟩ := ih (by simpa [hlast] using h)
      refine ⟨by simpa [bindSymbol, bindImport, hlast] using horigin, fun hne => ?_⟩
      rw [← hexported hne]
      simp only [bindSymbol, bindImport, exportedName]
      split
      · rfl
      · rw [Table.get?_insert, if_neg hlast]

end Bindings

namespace ParsedFile

variable {f : ParsedFile}

/-- The symbols that an import binds, with the path they come from. -/
def boundBy (r : ImportRecord) : List (ImportedSymbol × String) :=
  (r.symbols.filter fun s => s.localName ≠ "*").map fun s => (s, r.path)

/-- The last import of a file under the local name is that of `exported` from the file at `path`. -/
def Imports (f : ParsedFile) (name exported path : String) : Prop :=
  (((f.extract.file.imports.flatMap boundBy).filter fun e => e.1.localName = name).getLast?).map
    (fun e => (e.1.name, e.2)) = some (exported, path)

/-- Imports are bound symbol by symbol. -/
theorem foldl_bindSymbols (imports : List ImportRecord) (b : Bindings) :
    imports.foldl bindSymbols b = (imports.flatMap boundBy).foldl Bindings.bindSymbol b := by
  have hone : ∀ (b : Bindings) (r : ImportRecord),
      bindSymbols b r = (boundBy r).foldl Bindings.bindSymbol b := by
    intro b r
    rw [bindSymbols, boundBy, List.foldl_map, List.foldl_filter]
    congr 1
    funext b s
    by_cases hstar : s.localName = "*" <;> simp [hstar, Bindings.bindSymbol]
  induction imports generalizing b with
  | nil => rfl
  | cons r rest ih => rw [List.foldl_cons, hone, ih, List.flatMap_cons, List.foldl_append]

theorem sameImports_bindings (f : ParsedFile) :
    f.bindings.SameImports (f.extract.file.imports.foldl bindSymbols {}) := by
  have htype : ∀ (b : Bindings) (d : Tree × Scope × TypeDecl),
      (bindType b d.2.1 d.2.2).SameImports b := by
    intro b d
    exact (Bindings.sameImports_foldl (fun b _ => b.sameImports_recordInstance _ _ _ _) _ _).trans
      ⟨rfl, rfl⟩
  have hconstructor : ∀ (b : Bindings) (d : Tree × Scope × FunctionDecl),
      (bindConstructor b d.2.1 d.2.2).SameImports b := by
    intro b d
    unfold bindConstructor
    split
    · refine Bindings.sameImports_foldl (fun b p => ?_) _ _
      split
      · exact b.sameImports_recordInstance _ _ _ _
      · exact ⟨rfl, rfl⟩
    · exact ⟨rfl, rfl⟩
  exact (Bindings.sameImports_foldl hconstructor _ _).trans (Bindings.sameImports_foldl htype _ _)

/-- A name that is imported leads to its file, and to its exported name if it was renamed. -/
theorem Imports.bindings {name exported path : String} (h : f.Imports name exported path) :
    f.bindings.importedPath? name = some path ∧
      (name ≠ exported → f.bindings.exportedName name = exported) := by
  obtain ⟨e, he, heq⟩ := Option.map_eq_some_iff.1 h
  obtain ⟨rfl, rfl⟩ := Prod.mk.inj heq
  obtain ⟨horigins, hnames⟩ := f.sameImports_bindings
  obtain ⟨horigin, hexported⟩ := Bindings.foldl_bindSymbol he {}
  rw [foldl_bindSymbols] at horigins hnames
  refine ⟨Bindings.importedPath?_of_origins (horigins ▸ horigin), fun hne => ?_⟩
  rw [← hexported hne, Bindings.exportedName, hnames]
  rfl

/-! ## Targets of calls -/

/-- The name of the receiver of a call: the first one, or the member after the current instance. -/
def namedReceiver? (f : ParsedFile) : List Link → Option String
  | [] => none
  | first :: rest =>
    if f.grammar.isSelfReference first.name then rest.head?.map (·.name) else some first.name

/-- A receiver whose type is recorded leads to the file of that type. -/
theorem target_of_instance {b : Bindings} {around : Scope} {callers : List Link}
    {receiver type : String} (hreceiver : f.namedReceiver? callers = some receiver)
    (htype : b.instanceType? around receiver = some type) (function : String) :
    f.target b around function callers = ⟨some receiver, some type, f.fileOfType b type⟩ := by
  cases callers with
  | nil => cases hreceiver
  | cons first rest =>
    rw [namedReceiver?] at hreceiver
    rw [target]
    split at hreceiver
    next hself =>
      obtain ⟨member, hmember, rfl⟩ := Option.map_eq_some_iff.1 hreceiver
      obtain ⟨rest, rfl⟩ := List.head?_eq_some_iff.1 hmember
      rw [if_pos hself, selfTarget, htype]
    next hself =>
      obtain rfl := Option.some.inj hreceiver
      rw [if_neg hself, receiverTarget, htype]

/-- A call with these receivers has the target that is found for them. -/
theorem callRecord?_concat (b : Bindings) (t : Tree) (scope : Scope) (callers : List Link)
    (function : String) :
    let target := f.target b scope.withoutInnermostFunction function callers
    f.callRecord? b t scope (callers ++ [⟨function, .function⟩]) = some
      ⟨t.id f.absolutePath, function, target.file, target.caller, target.callerType,
        f.source.startLine t⟩ := by
  simp [callRecord?, splitChain?]

end ParsedFile

/-! ## Look-up -/

namespace CodeGraph

variable {g : CodeGraph}

/-- The method of the calling function's own class that a call may mean. -/
def ownMethod? (g : CodeGraph) (function : Option FunctionRecord) (caller : Option String)
    (name : String) : Option String :=
  function.bind fun f => (f.className.filter fun owner => caller.all (· = owner)).bind fun owner =>
    g.functionNamed? f.file (owner ++ "." ++ name)

/-- A method of the first owner that has one in the file, or else a function of the file, or else a
method of the calling function's own class. -/
def lookUp? (g : CodeGraph) (function : Option FunctionRecord) (file : String)
    (owners : List String) (caller : Option String) (name : String) : Option String :=
  owners.foldr (fun owner found => (g.functionNamed? file (owner ++ "." ++ name)).or found)
    ((g.functionNamed? file name).or (g.ownMethod? function caller name))

/-- A call is looked up by its file, its receivers' types and its name. -/
theorem callTarget?_eq_lookUp? (function : Option FunctionRecord) (call : CallRecord) :
    g.callTarget? function call = g.lookUp? function (Path.normalize call.file)
      (call.callerType.toList ++ call.caller.toList) call.caller call.function := by
  obtain ⟨-, name, file, caller, callerType, -⟩ := call
  cases callerType <;> cases caller <;> rfl

end CodeGraph

namespace ParsedFile

variable {f : ParsedFile}

/-- A call of an imported name, and a call on a member of an imported type, is looked up in the right
file, but under the local name, whatever the file exports it as. A call on a renamed type itself is
looked up under the exported name. -/
theorem imports_looked_up_by_local_name {name exported path : String}
    (h : f.Imports name exported path) (t : Tree) (scope : Scope) :
    (∃ c, f.callRecord? f.bindings t scope [⟨name, .function⟩] = some c ∧
      ∀ (g : CodeGraph) function,
        g.callTarget? function c = g.lookUp? function (Path.normalize path) [] none name) ∧
    (∀ callers receiver method, f.namedReceiver? callers = some receiver →
      f.bindings.instanceType? scope.withoutInnermostFunction receiver = some name →
      ∃ c, f.callRecord? f.bindings t scope (callers ++ [⟨method, .function⟩]) = some c ∧
        ∀ (g : CodeGraph) function, g.callTarget? function c =
          g.lookUp? function (Path.normalize path) [name, receiver] (some receiver) method) ∧
    (∀ role rest method, name ≠ exported → f.grammar.isSelfReference name = false →
      f.bindings.instanceType? scope.withoutInnermostFunction name = none →
      startsUppercase exported = true →
      ∃ c, f.callRecord? f.bindings t scope (⟨name, role⟩ :: rest ++ [⟨method, .function⟩]) =
          some c ∧
        ∀ (g : CodeGraph) function, g.callTarget? function c =
          g.lookUp? function (Path.normalize path) [exported, name] (some name) method) := by
  obtain ⟨hpath, hexported⟩ := h.bindings
  refine ⟨⟨_, callRecord?_concat _ t scope [] name, fun g function => ?_⟩, ?_, ?_⟩
  · rw [CodeGraph.callTarget?_eq_lookUp?, target, hpath]
    rfl
  · intro callers receiver method hreceiver htype
    refine ⟨_, callRecord?_concat _ t scope callers method, fun g function => ?_⟩
    rw [CodeGraph.callTarget?_eq_lookUp?, target_of_instance hreceiver htype, fileOfType, hpath]
    rfl
  · intro role rest method hne hself htype hupper
    refine ⟨_, callRecord?_concat _ t scope (⟨name, role⟩ :: rest) method, fun g function => ?_⟩
    have htarget : f.target f.bindings scope.withoutInnermostFunction method
        (⟨name, role⟩ :: rest) = ⟨some name, some exported, path⟩ := by
      simp [target, hself, receiverTarget, htype, hpath, hexported hne, hupper]
    rw [CodeGraph.callTarget?_eq_lookUp?, htarget]
    rfl

/-! ## A file with renamed imports -/

open CodeGraph (part)

/-- Imports `boot` as `start` and `Service` as `Svc`, and declares a class whose member `service` is
a `Svc`. -/
def renamingFile : ParsedFile where
  grammar := .typescript
  source := ⟨"boot start Service Svc './service' A constructor service Svc".toUTF8⟩
  tree := part "program" none 0 60
    [part "import_statement" none 0 34
      [part "import_clause" none 0 22
        [part "named_imports" none 0 22
          [part "import_specifier" none 0 10
            [part "identifier" (some "name") 0 4 [], part "identifier" (some "alias") 5 10 []],
            part "import_specifier" none 11 22
              [part "identifier" (some "name") 11 18 [],
                part "identifier" (some "alias") 19 22 []]]],
        part "string" (some "source") 23 34 []],
      part "class_declaration" none 35 60
        [part "type_identifier" (some "name") 35 36 [],
          part "class_body" (some "body") 37 60
            [part "method_definition" none 37 60
              [part "property_identifier" (some "name") 37 48 [],
                part "formal_parameters" (some "parameters") 49 60
                  [part "required_parameter" none 49 60
                    [part "identifier" (some "pattern") 49 56 [],
                      part "type_annotation" (some "type") 57 60
                        [part "type_identifier" none 57 60 []]]]]]]]
  path := "caller.ts"
  absolutePath := "/p/caller.ts"
  resolve := ⟨fun _ _ => ⟨"/p/service.ts", false⟩⟩

/-- The file that `renamingFile` imports from. -/
def serviceGraph : CodeGraph where
  functions := .ofList
    [("/p/service.ts::Service::run",
        { (default : FunctionRecord) with
          file := "/p/service.ts", name := "run", scope := "Service::run"
          className := some "Service" }),
      ("/p/service.ts::boot",
        { (default : FunctionRecord) with
          file := "/p/service.ts", name := "boot", scope := "boot" })]

theorem imports_renamingFile :
    renamingFile.Imports "start" "boot" "/p/service.ts" ∧
      renamingFile.Imports "Svc" "Service" "/p/service.ts" := by
  have himports : renamingFile.extract.file.imports =
      (renamingFile.importsByNode renamingFile.scopedNodes).flatMap (·.2) := rfl
  rw [Imports, Imports, himports, scopedNodes_eq]
  decide +kernel

/-- The scope of a method of the class of `renamingFile`. -/
def methodScope : Scope :=
  ⟨[⟨.classType, "A"⟩, ⟨.method, "go"⟩]⟩

theorem instanceType?_renamingFile :
    renamingFile.bindings.instanceType? methodScope.withoutInnermostFunction "service" =
      some "Svc" := by
  rw [ParsedFile.bindings, scopedNodes_eq]
  decide +kernel

/-- A call on `Svc` itself finds the method of `Service`, and one on a member of type `Svc` asks for
a method of `Svc`. -/
theorem renamingFile_calls_looked_up :
    renamingFile.Imports "Svc" "Service" "/p/service.ts" ∧
    renamingFile.bindings.instanceType? methodScope.withoutInnermostFunction "service" =
      some "Svc" ∧
    (∃ c, renamingFile.callRecord? renamingFile.bindings renamingFile.tree methodScope
        [⟨"this", .member⟩, ⟨"service", .member⟩, ⟨"run", .function⟩] = some c ∧
      serviceGraph.callTarget? none c = serviceGraph.lookUp? none (Path.normalize "/p/service.ts")
        ["Svc", "service"] (some "service") "run") ∧
    ∃ c, renamingFile.callRecord? renamingFile.bindings renamingFile.tree methodScope
        [⟨"Svc", .member⟩, ⟨"run", .function⟩] = some c ∧
      serviceGraph.callTarget? none c = some "/p/service.ts::Service::run" := by
  have himports := imports_renamingFile.2
  obtain ⟨-, hmember, hdirect⟩ :=
    imports_looked_up_by_local_name himports renamingFile.tree methodScope
  have hself : renamingFile.grammar.isSelfReference "Svc" = false := by decide
  have huntyped : renamingFile.bindings.instanceType? methodScope.withoutInnermostFunction "Svc" =
      none := by
    rw [ParsedFile.bindings, scopedNodes_eq]
    decide +kernel
  obtain ⟨c, hc, hlooked⟩ := hmember [⟨"this", .member⟩, ⟨"service", .member⟩] "service" "run"
    (by decide) instanceType?_renamingFile
  obtain ⟨d, hd, hfound⟩ := hdirect .member [] "run" (by decide) hself huntyped (by decide +kernel)
  refine ⟨himports, instanceType?_renamingFile, ⟨c, hc, hlooked _ _⟩, d, hd, ?_⟩
  rw [hfound]
  decide

/-- Neither `start()` nor `this.service.run()` is linked, though the file that they are imported from
has the function `boot` and the method `run` of `Service`. -/
theorem renamingFile_calls_not_linked :
    renamingFile.Imports "start" "boot" "/p/service.ts" ∧
    renamingFile.Imports "Svc" "Service" "/p/service.ts" ∧
    renamingFile.bindings.instanceType? methodScope.withoutInnermostFunction "service" =
      some "Svc" ∧
    serviceGraph.functionNamed? "/p/service.ts" "boot" = some "/p/service.ts::boot" ∧
    serviceGraph.functionNamed? "/p/service.ts" "Service.run" =
      some "/p/service.ts::Service::run" ∧
    (∃ c, renamingFile.callRecord? renamingFile.bindings renamingFile.tree methodScope
        [⟨"start", .function⟩] = some c ∧ serviceGraph.callTarget? none c = none) ∧
    ∃ c, renamingFile.callRecord? renamingFile.bindings renamingFile.tree methodScope
        [⟨"this", .member⟩, ⟨"service", .member⟩, ⟨"run", .function⟩] = some c ∧
      serviceGraph.callTarget? none c = none := by
  obtain ⟨hstart, hservice⟩ := imports_renamingFile
  refine ⟨hstart, hservice, instanceType?_renamingFile, by decide, by decide,
    ⟨_, callRecord?_concat _ _ _ [] "start", ?_⟩,
    ⟨_, callRecord?_concat _ _ _ [⟨"this", .member⟩, ⟨"service", .member⟩] "run", ?_⟩⟩
  · rw [CodeGraph.callTarget?_eq_lookUp?, target, hstart.bindings.1]
    decide
  · rw [CodeGraph.callTarget?_eq_lookUp?, target_of_instance (by decide) instanceType?_renamingFile,
      fileOfType, hservice.bindings.1]
    decide

end ParsedFile

end CodeImpact
