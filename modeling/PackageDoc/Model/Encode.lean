import PackageDoc.Json.Basic
import PackageDoc.Model.Tree

namespace PackageDoc

/-!
# The documentation as JSON

* `DocModel.toJson` — the whole documentation, as renderers read it;
* `TypeRef.toJson`, `Docstring.toJson`, `DocNode.toJson`, … — its parts.

The fields of an object stand in a fixed order, an absent value is written as `null`, and of several
shapes of one kind each names itself in its first field.
-/

/-! ### Names of enumerations -/

/-- The name of a severity. -/
def Severity.tag : Severity → String
  | error => "Error"
  | warning => "Warning"
  | info => "Info"

/-- The name of a category. -/
def DiagnosticKind.tag : DiagnosticKind → String
  | syntaxError => "syntax_error"
  | importError => "import_error"
  | notFound => "not_found"
  | cyclicImport => "cyclic_import"
  | annotationEval => "annotation_eval"
  | visibilityScope => "visibility_scope"
  | docstringGrammarMismatch => "docstring_grammar_mismatch"
  | unresolvedNative => "unresolved_native"
  | runtimeMismatch => "runtime_mismatch"

/-- The name of a kind of parameter. -/
def ParamKind.tag : ParamKind → String
  | positionalOnly => "positional_only"
  | positionalOrKeyword => "positional_or_keyword"
  | varPositional => "var_positional"
  | keywordOnly => "keyword_only"
  | varKeyword => "var_keyword"

/-- The name of a kind of section. -/
def SectionKind.tag : SectionKind → String
  | args => "args"
  | attributes => "attributes"
  | examples => "examples"
  | frontMatter => "front_matter"
  | raises => "raises"
  | returns => "returns"
  | require => "require"
  | yields => "yields"
  | version => "version"
  | typeVersion => "type_version"
  | text => "text"

/-- The name of a kind of node. -/
def NodeKind.tag : NodeKind → String
  | classDef => "class"
  | function => "function"
  | .variable => "variable"
  | reference => "reference"
  | libraryAttr => "library_attr"

/-- The name of a kind of link. -/
def LinkKind.tag : LinkKind → String
  | definition => "definition"
  | external => "external"

/-- The name of a scope. -/
def TargetScope.tag : TargetScope → String
  | package => "package"
  | module => "module"
  | library => "library"
  | builtin => "builtin"

/-- The name of a failure. -/
def ChainFailure.tag : ChainFailure → String
  | cyclic => "cyclic"
  | notFound => "not_found"
  | unresolvedModule => "unresolved_module"

/-- The name of a reason. -/
def UnresolvedReason.tag : UnresolvedReason → String
  | syntaxError => "syntax_error"
  | notFound => "not_found"
  | noStubForNative => "no_stub_for_native"

/-! ### Types -/

/-- A target. -/
def Target.toJson (t : Target) : Json :=
  .obj [("module", .str t.module), ("qualname", .str t.qualname), ("scope", .str t.scope.tag)]

/-- The reason why a text was kept. -/
def RawReason.toJson : RawReason → Json
  | alternateSyntax => .obj [("reason", .str "alternate_syntax")]
  | unparseable => .obj [("reason", .str "unparseable")]
  | undefinedName name => .obj [("reason", .str "undefined_name"), ("name", .str name)]
  | unresolvedForwardRef text =>
    .obj [("reason", .str "unresolved_forward_ref"), ("text", .str text)]
  | cyclicImport name => .obj [("reason", .str "cyclic_import"), ("name", .str name)]
  | unresolvedImport name => .obj [("reason", .str "unresolved_import"), ("name", .str name)]
  | unsupportedExpression => .obj [("reason", .str "unsupported_expression")]
  | tooDeep => .obj [("reason", .str "too_deep")]

/-- A linked name. -/
def TextLink.toJson (l : TextLink) : Json :=
  .obj [("start", .nat l.start), ("end", .nat l.stop), ("target", l.target.toJson)]

mutual

/-- A type. -/
def TypeRef.toJson : TypeRef → Json
  | .resolved target => .obj [("type", .str "resolved"), ("target", target.toJson)]
  | .generic base args =>
    .obj [("type", .str "generic"), ("base", base.toJson), ("args", .arr (TypeRef.listJson args))]
  | .union members => .obj [("type", .str "union"), ("members", .arr (TypeRef.listJson members))]
  | .literal values => .obj [("type", .str "literal"), ("values", .ofList .str values)]
  | .params items => .obj [("type", .str "params"), ("items", .arr (TypeRef.listJson items))]
  | .ellipsis => .obj [("type", .str "ellipsis")]
  | .raw text reason links =>
    .obj [("type", .str "opaque"), ("raw", .str text), ("reason", reason.toJson),
      ("links", .ofList TextLink.toJson links)]

/-- Several types. -/
def TypeRef.listJson : List TypeRef → List Json
  | [] => []
  | t :: ts => t.toJson :: TypeRef.listJson ts

end

/-! ### Diagnostics and origins -/

/-- A diagnostic. -/
def Diagnostic.toJson (d : Diagnostic) : Json :=
  .obj [("kind", .str d.kind.tag), ("severity", .str d.severity.tag), ("message", .str d.message),
    ("line", .ofOption .nat d.line)]

/-- An origin. -/
def Origin.toJson : Origin → Json
  | .definition m n =>
    .obj [("kind", .str "definition"), ("module", .str m), ("name", .str n)]
  | .module m => .obj [("kind", .str "module"), ("module", .str m)]
  | .library m n => .obj [("kind", .str "library"), ("module", .str m), ("name", .str n)]
  | .unresolved m n reason =>
    .obj [("kind", .str "unresolved"), ("module", .str m), ("name", .str n),
      ("reason", .str reason.tag)]

/-- The files of a module. -/
def ModuleFiles.toJson (f : ModuleFiles) : Json :=
  .obj [("source", .ofText? f.source), ("stub", .ofText? f.stub), ("native", .ofText? f.native)]

/-- The status of a module. -/
def ModuleStatus.toJson : ModuleStatus → Json
  | resolved => .obj [("status", .str "resolved")]
  | unresolved reason => .obj [("status", .str "unresolved"), ("reason", .str reason.tag)]

/-! ### Docstrings -/

/-- A role. -/
def Role.toJson (r : Role) : Json :=
  .obj [("name", .str r.name), ("content", .str r.content)]

/-- An entry of a section. -/
def Entry.toJson (e : Entry) : Json :=
  .obj [("name", .str e.name), ("annotation", .ofText? e.type),
    ("roles", .ofList Role.toJson e.roles), ("description", .str e.description)]

/-- The body of a section.  Front matter that was not decoded has no field for its data. -/
def SectionBody.toJson : SectionBody → Json
  | .entries items lead =>
    .obj [("type", .str "entries"), ("entries", .ofList Entry.toJson items), ("text", .str lead)]
  | .value v =>
    .obj [("type", .str "value"),
      ("value", .obj [("annotation", .ofText? v.type), ("description", .str v.description)])]
  | .text content => .obj [("type", .str "text"), ("text", .str content)]
  | .frontMatter content data =>
    .obj ([("type", .str "front_matter"), ("text", .str content)] ++
      (data.map fun d => ("data", d)).toList)

/-- A section. -/
def Section.toJson (s : Section) : Json :=
  .obj [("kind", .str s.kind.tag), ("heading", .str s.heading), ("version", .ofText? s.version),
    ("body", s.body.toJson)]

/-- An issue of a docstring. -/
def DocstringIssue.toJson (i : DocstringIssue) : Json :=
  .obj [("line", .nat i.line), ("message", .str i.mismatch.message)]

/-- A docstring. -/
def Docstring.toJson (d : Docstring) : Json :=
  .obj [("roles", .ofList Role.toJson d.roles), ("annotation", .ofText? d.type),
    ("description", .str d.description), ("long_description", .str d.longDescription),
    ("sections", .ofList Section.toJson d.sections),
    ("issues", .ofList DocstringIssue.toJson d.issues)]

/-! ### The tree -/

/-- A parameter. -/
def Parameter.toJson (p : Parameter) : Json :=
  .obj [("name", .str p.name), ("kind", .str p.kind.tag),
    ("annotation", .ofOption TypeRef.toJson p.type), ("has_default", .bool p.hasDefault),
    ("default", .ofText? p.default)]

/-- A signature. -/
def Signature.toJson (s : Signature) : Json :=
  .obj [("params", .ofList Parameter.toJson s.params),
    ("returns", .ofOption TypeRef.toJson s.returns), ("docstring", .ofText? s.docstring),
    ("line", .ofOption .nat s.line)]

/-- The flags of a function. -/
def FunctionFlags.toJson (f : FunctionFlags) : Json :=
  .obj [("is_async", .bool f.isAsync), ("is_static", .bool f.isStatic),
    ("is_class", .bool f.isClass), ("is_property", .bool f.isProperty)]

mutual

/-- A node with all below it. -/
def DocNode.toJson : DocNode → Json
  | ⟨name, qualified, kind, line, documented, docstring, doc, type, signature, overloads,
      flags, bases, instanceVar, origin, members, diagnostics⟩ =>
    .obj [("name", .str name),
      ("qualified_name",
        .obj [("module", .str qualified.module), ("qualname", .str qualified.qualname)]),
      ("kind", .str kind.tag), ("line", .ofOption .nat line), ("documented", .bool documented),
      ("docstring", .ofText? docstring), ("doc", .ofOption Docstring.toJson doc),
      ("annotation", .ofOption TypeRef.toJson type),
      ("signature", .ofOption Signature.toJson signature),
      ("overloads", .ofList Signature.toJson overloads), ("flags", flags.toJson),
      ("bases", .arr (TypeRef.listJson bases)), ("instance_var", .bool instanceVar),
      ("origin", .ofOption Origin.toJson origin), ("members", .arr (DocNode.listJson members)),
      ("diagnostics", .ofList Diagnostic.toJson diagnostics)]

/-- Several nodes. -/
def DocNode.listJson : List DocNode → List Json
  | [] => []
  | n :: ns => n.toJson :: DocNode.listJson ns

end

/-- An imported name. -/
def ExternalEntry.toJson (e : ExternalEntry) : Json :=
  .obj [("name", .str e.name), ("imported_from", .str e.importedFrom),
    ("imported_name", .str e.importedName), ("origin", e.origin.toJson),
    ("kind", .str LinkKind.external.tag), ("type_checking", .bool e.typeChecking),
    ("line", .ofOption .nat e.line)]

mutual

/-- A module with all below it. -/
def DocModule.toJson : DocModule → Json
  | ⟨name, isPackage, files, status, documented, docstring, doc, members, externals, submodules,
      diagnostics⟩ =>
    .obj [("name", .str name), ("is_package", .bool isPackage), ("files", files.toJson),
      ("status", status.toJson), ("documented", .bool documented),
      ("docstring", .ofText? docstring), ("doc", .ofOption Docstring.toJson doc),
      ("members", .arr (DocNode.listJson members)),
      ("externals", .ofList ExternalEntry.toJson externals),
      ("submodules", .arr (DocModule.listJson submodules)),
      ("diagnostics", .ofList Diagnostic.toJson diagnostics)]

/-- Several modules. -/
def DocModule.listJson : List DocModule → List Json
  | [] => []
  | m :: ms => m.toJson :: DocModule.listJson ms

end

/-- The whole documentation. -/
def DocModel.toJson (m : DocModel) : Json :=
  .obj [("link_mode", .str m.linkMode.text), ("root", m.root.toJson)]

end PackageDoc
