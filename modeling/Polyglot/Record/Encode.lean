import Polyglot.Json.Basic
import Polyglot.Record.File

/-!
This module contains the JSON form of the records: an object with a field for every field of the
record, null for what is missing, and the kind of an argument beside its position and text.
-/

namespace Polyglot

namespace Json

def ofOption (encode : α → Json) : Option α → Json
  | none => null
  | some a => encode a

def ofList (encode : α → Json) (items : List α) : Json := arr (items.map encode)

def word (w : UInt32) : Json := nat w.toNat

end Json

open Json

def Position.toJson (p : Position) : Json := obj [("line", word p.line), ("column", word p.column)]

mutual

/--
The fields that are particular to a kind of argument, after the field for the kind itself.
-/
def ArgumentKind.toFields : ArgumentKind → List (String × Json)
  | .string value => [("type", str "string"), ("value", str value)]
  | .number value => [("type", str "number"), ("value", real value)]
  | .boolean value => [("type", str "boolean"), ("value", bool value)]
  | .identifier name => [("type", str "identifier"), ("name", str name)]
  | .object properties =>
    [("type", str "object"), ("properties", obj (encodeProperties properties))]
  | .array elements => [("type", str "array"), ("elements", arr (encodeArguments elements))]
  | .unknown label => [("type", str "unknown"), ("label", ofOption str label)]

def encodeArgument : Located ArgumentKind → Json
  | ⟨kind, position, text⟩ =>
    obj (kind.toFields ++ [("position", position.toJson), ("text", str text)])

def encodeArguments : List (Located ArgumentKind) → List Json
  | [] => []
  | a :: as => encodeArgument a :: encodeArguments as

def encodeProperties : List (String × Located ArgumentKind) → List (String × Json)
  | [] => []
  | (key, a) :: rest => (key, encodeArgument a) :: encodeProperties rest

end

def Segment.toJson (s : Segment) : Json :=
  obj
    [("name", str s.name),
      ("isCall", bool s.isCall),
      ("args", arr (encodeArguments s.arguments)),
      ("position", s.position.toJson)]

def CallChain.toJson (c : CallChain) : Json :=
  obj
    [("receiver", str c.receiver),
      ("segments", ofList Segment.toJson c.segments),
      ("raw", str c.raw),
      ("file", str c.file),
      ("start", c.start.toJson),
      ("end", c.stop.toJson)]

def Parameter.toJson (p : Parameter) : Json :=
  obj
    [("name", str p.name),
      ("typeAnnotation", ofOption str p.typeAnnotation),
      ("defaultValue", ofOption str p.defaultValue),
      ("isRest", bool p.isRest),
      ("isOptional", bool p.isOptional)]

def FunctionDecl.toJson (f : FunctionDecl) : Json :=
  obj
    [("name", str f.name),
      ("qualifiedName", str f.qualifiedName),
      ("file", str f.file),
      ("start", f.start.toJson),
      ("end", f.stop.toJson),
      ("parameters", ofList Parameter.toJson f.parameters),
      ("returnType", ofOption str f.returnType),
      ("isMethod", bool f.isMethod),
      ("isStatic", bool f.isStatic),
      ("isExported", bool f.isExported),
      ("isConstructor", bool f.isConstructor),
      ("isAsync", bool f.isAsync),
      ("className", ofOption str f.className),
      ("decorators", ofList str f.decorators),
      ("bodyStartLine", ofOption word f.bodyStartLine),
      ("bodyEndLine", ofOption word f.bodyEndLine)]

def ClassDecl.toJson (c : ClassDecl) : Json :=
  obj
    [("name", str c.name),
      ("kind", str c.kind.name),
      ("file", str c.file),
      ("startLine", word c.startLine),
      ("endLine", word c.endLine),
      ("baseClasses", ofList str c.baseClasses),
      ("methods", ofList str c.methods),
      ("isExported", bool c.isExported)]

def Binding.toJson (b : Binding) : Json :=
  obj
    [("imported", str b.imported),
      ("local", str b.bound),
      ("isDefault", bool b.isDefault),
      ("isNamespace", bool b.isNamespace)]

def ImportDecl.toJson (i : ImportDecl) : Json :=
  obj
    [("source", str i.source),
      ("bindings", ofList Binding.toJson i.bindings),
      ("line", word i.line),
      ("isTypeOnly", bool i.isTypeOnly)]

def ExportDecl.toJson (e : ExportDecl) : Json :=
  obj
    [("source", ofOption str e.source),
      ("bindings", ofList Binding.toJson e.bindings),
      ("line", word e.line),
      ("isTypeOnly", bool e.isTypeOnly)]

def FallbackCounters.toJson (c : FallbackCounters) : Json :=
  obj
    [("unknownArgs", word c.unknownArgs),
      ("opaqueReceivers", word c.opaqueReceivers),
      ("depthLimitedChains", word c.depthLimitedChains),
      ("depthLimitedArgs", word c.depthLimitedArgs),
      ("skippedDeclarations", word c.skippedDeclarations),
      ("truncatedSubtrees", word c.truncatedSubtrees)]

def Contents.toFields (c : Contents) : List (String × Json) :=
  [("callChains", ofList CallChain.toJson c.callChains),
    ("functions", ofList FunctionDecl.toJson c.functions),
    ("classes", ofList ClassDecl.toJson c.classes),
    ("imports", ofList ImportDecl.toJson c.imports),
    ("exports", ofList ExportDecl.toJson c.exports)]

def Facts.toJson (f : Facts) : Json :=
  obj (f.toFields ++ [("fallbacks", f.fallbacks.counters.toJson)])

def Language.toJson (l : Language) : Json := str l.name

def FileRecord.toJson (r : FileRecord) : Json :=
  obj
    ([("file", str r.file),
      ("language", r.language.toJson),
      ("contentHash", nat r.contentHash.toNat)]
      ++ r.toFields
      ++ [("fallbacks", r.fallbacks.toJson), ("hasParseErrors", bool r.hasParseErrors)])

def FileFailure.toJson (f : FileFailure) : Json :=
  obj [("file", str f.file), ("errorCode", str f.errorCode), ("message", str f.message)]

def ProjectStats.toJson (s : ProjectStats) : Json :=
  obj
    [("filesNormalized", nat s.filesNormalized),
      ("filesFailed", nat s.filesFailed),
      ("filesSkipped", nat s.filesSkipped),
      ("callChains", nat s.callChains),
      ("functions", nat s.functions),
      ("classes", nat s.classes),
      ("imports", nat s.imports),
      ("exports", nat s.exports),
      ("fallbacks", s.fallbacks.toJson),
      ("durationMs", nat s.durationMs)]

def ProjectRecord.toJson (r : ProjectRecord) : Json :=
  obj
    [("files", ofList FileRecord.toJson r.files),
      ("failures", ofList FileFailure.toJson r.failures),
      ("stats", r.stats.toJson)]

end Polyglot
