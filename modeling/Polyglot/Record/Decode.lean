import Polyglot.Json.Basic
import Polyglot.Record.File

/-!
This module contains the reading of records from their JSON form. A record may be an object, in
which fields that the record does not have are ignored, or an array of the record's fields in the
order of their declaration. An argument is always an object.
-/

namespace Polyglot

namespace Json

def word? (j : Json) : Option UInt32 := (j.natBelow? UInt32.size).map UInt32.ofNat

/--
A count, which is a word of 64 bits.
-/
def count? (j : Json) : Option Nat := j.natBelow? UInt64.size

end Json

open Json

def Position.ofJson? (j : Json) : Option Position := do
  let [line, column] ← j.record? ["line", "column"] | none
  return { line := ← word? line, column := ← word? column }

/--
The kind of an argument by name, or by its place among the kinds.
-/
def argumentTag? (j : Json) : Option String :=
  match j with
  | .str name => some name
  | .int i => if 0 ≤ i then ArgumentKind.names[i.toNat]? else none
  | _ => none

/--
Read an argument. A missing field counts as null.
-/
def decodeArgument? (j : Json) : Option Argument :=
  match j with
  | .obj fields => do
    let kind ←
      match ← argumentTag? (lookupD fields "type") with
      | "string" => .string <$> str? (lookupD fields "value")
      | "number" => .number <$> real? (lookupD fields "value")
      | "boolean" => .boolean <$> bool? (lookupD fields "value")
      | "identifier" => .identifier <$> str? (lookupD fields "name")
      | "object" =>
        match _h : lookup? fields "properties" with
        | some (.obj properties) =>
          let properties ← properties.attach.mapM fun (⟨(key, value), _⟩ : Subtype _) =>
            (decodeArgument? value).map (key, ·)
          some (.object (properties.foldl (fun sorted (key, a) => insertProperty key a sorted) []))
        | _ => none
      | "array" =>
        match _h : lookup? fields "elements" with
        | some (.arr elements) =>
          let elements ← elements.attach.mapM fun (⟨value, _⟩ : Subtype _) => decodeArgument? value
          some (.array elements)
        | _ => none
      | "unknown" => .unknown <$> nullable? str? (lookupD fields "label")
      | _ => none
    let position ← Position.ofJson? (lookupD fields "position")
    let text ← str? (lookupD fields "text")
    return ⟨kind, position, text⟩
  | _ => none
termination_by sizeOf j
decreasing_by
  · have := sizeOf_lt_of_lookup? ‹_›
    have := sizeOf_lt_of_mem_fields ‹_›
    omega
  · have := sizeOf_lt_of_lookup? ‹_›
    have := sizeOf_lt_of_mem_items ‹_›
    omega

def Segment.ofJson? (j : Json) : Option Segment := do
  let [name, isCall, arguments, position] ← j.record? ["name", "isCall", "args", "position"] | none
  return {
    name := ← str? name,
    isCall := ← bool? isCall,
    arguments := ← list? decodeArgument? arguments,
    position := ← Position.ofJson? position }

def CallChain.ofJson? (j : Json) : Option CallChain := do
  let [receiver, segments, raw, file, start, stop] ←
    j.record? ["receiver", "segments", "raw", "file", "start", "end"] | none
  return {
    receiver := ← str? receiver,
    segments := ← list? Segment.ofJson? segments,
    raw := ← str? raw,
    file := ← str? file,
    start := ← Position.ofJson? start,
    stop := ← Position.ofJson? stop }

def Parameter.ofJson? (j : Json) : Option Parameter := do
  let [name, typeAnnotation, defaultValue, isRest, isOptional] ←
    j.record? ["name", "typeAnnotation", "defaultValue", "isRest", "isOptional"] | none
  return {
    name := ← str? name,
    typeAnnotation := ← nullable? str? typeAnnotation,
    defaultValue := ← nullable? str? defaultValue,
    isRest := ← bool? isRest,
    isOptional := ← bool? isOptional }

def FunctionDecl.ofJson? (j : Json) : Option FunctionDecl := do
  let [name, qualifiedName, file, start, stop, parameters, returnType, isMethod, isStatic,
      isExported, isConstructor, isAsync, className, decorators, bodyStartLine, bodyEndLine] ←
    j.record?
      ["name", "qualifiedName", "file", "start", "end", "parameters", "returnType", "isMethod",
        "isStatic", "isExported", "isConstructor", "isAsync", "className", "decorators",
        "bodyStartLine", "bodyEndLine"] | none
  return {
    name := ← str? name,
    qualifiedName := ← str? qualifiedName,
    file := ← str? file,
    start := ← Position.ofJson? start,
    stop := ← Position.ofJson? stop,
    parameters := ← list? Parameter.ofJson? parameters,
    returnType := ← nullable? str? returnType,
    isMethod := ← bool? isMethod,
    isStatic := ← bool? isStatic,
    isExported := ← bool? isExported,
    isConstructor := ← bool? isConstructor,
    isAsync := ← bool? isAsync,
    className := ← nullable? str? className,
    decorators := ← list? str? decorators,
    bodyStartLine := ← nullable? word? bodyStartLine,
    bodyEndLine := ← nullable? word? bodyEndLine }

def ClassKind.ofJson? (j : Json) : Option ClassKind := j.name?.bind ClassKind.ofName?

def ClassDecl.ofJson? (j : Json) : Option ClassDecl := do
  let [name, kind, file, startLine, endLine, baseClasses, methods, isExported] ←
    j.record?
      ["name", "kind", "file", "startLine", "endLine", "baseClasses", "methods", "isExported"]
    | none
  return {
    name := ← str? name,
    kind := ← ClassKind.ofJson? kind,
    file := ← str? file,
    startLine := ← word? startLine,
    endLine := ← word? endLine,
    baseClasses := ← list? str? baseClasses,
    methods := ← list? str? methods,
    isExported := ← bool? isExported }

def Binding.ofJson? (j : Json) : Option Binding := do
  let [imported, bound, isDefault, isNamespace] ←
    j.record? ["imported", "local", "isDefault", "isNamespace"] | none
  return {
    imported := ← str? imported,
    bound := ← str? bound,
    isDefault := ← bool? isDefault,
    isNamespace := ← bool? isNamespace }

def ImportDecl.ofJson? (j : Json) : Option ImportDecl := do
  let [source, bindings, line, isTypeOnly] ←
    j.record? ["source", "bindings", "line", "isTypeOnly"] | none
  return {
    source := ← str? source,
    bindings := ← list? Binding.ofJson? bindings,
    line := ← word? line,
    isTypeOnly := ← bool? isTypeOnly }

def ExportDecl.ofJson? (j : Json) : Option ExportDecl := do
  let [source, bindings, line, isTypeOnly] ←
    j.record? ["source", "bindings", "line", "isTypeOnly"] | none
  return {
    source := ← nullable? str? source,
    bindings := ← list? Binding.ofJson? bindings,
    line := ← word? line,
    isTypeOnly := ← bool? isTypeOnly }

def FallbackCounters.ofJson? (j : Json) : Option FallbackCounters := do
  let [unknownArgs, opaqueReceivers, depthLimitedChains, depthLimitedArgs, skippedDeclarations,
      truncatedSubtrees] ←
    j.record?
      ["unknownArgs", "opaqueReceivers", "depthLimitedChains", "depthLimitedArgs",
        "skippedDeclarations", "truncatedSubtrees"] | none
  return {
    unknownArgs := ← word? unknownArgs,
    opaqueReceivers := ← word? opaqueReceivers,
    depthLimitedChains := ← word? depthLimitedChains,
    depthLimitedArgs := ← word? depthLimitedArgs,
    skippedDeclarations := ← word? skippedDeclarations,
    truncatedSubtrees := ← word? truncatedSubtrees }

def Facts.ofJson? (j : Json) : Option Facts := do
  let [callChains, functions, classes, imports, exports, fallbacks] ←
    j.record? ["callChains", "functions", "classes", "imports", "exports", "fallbacks"] | none
  return {
    callChains := ← list? CallChain.ofJson? callChains,
    functions := ← list? FunctionDecl.ofJson? functions,
    classes := ← list? ClassDecl.ofJson? classes,
    imports := ← list? ImportDecl.ofJson? imports,
    exports := ← list? ExportDecl.ofJson? exports,
    fallbacks := (← FallbackCounters.ofJson? fallbacks).counts }

/--
A language by its exact name.
-/
def Language.ofJson? (j : Json) : Option Language :=
  j.name?.bind fun name => Language.all.find? (·.name == name)

def FileRecord.ofJson? (j : Json) : Option FileRecord := do
  let [file, language, contentHash, callChains, functions, classes, imports, exports, fallbacks,
      hasParseErrors] ←
    j.record?
      ["file", "language", "contentHash", "callChains", "functions", "classes", "imports",
        "exports", "fallbacks", "hasParseErrors"] | none
  return {
    file := ← str? file,
    language := ← Language.ofJson? language,
    contentHash := UInt64.ofNat (← count? contentHash),
    callChains := ← list? CallChain.ofJson? callChains,
    functions := ← list? FunctionDecl.ofJson? functions,
    classes := ← list? ClassDecl.ofJson? classes,
    imports := ← list? ImportDecl.ofJson? imports,
    exports := ← list? ExportDecl.ofJson? exports,
    fallbacks := ← FallbackCounters.ofJson? fallbacks,
    hasParseErrors := ← bool? hasParseErrors }

def FileFailure.ofJson? (j : Json) : Option FileFailure := do
  let [file, errorCode, message] ← j.record? ["file", "errorCode", "message"] | none
  return { file := ← str? file, errorCode := ← str? errorCode, message := ← str? message }

def ProjectStats.ofJson? (j : Json) : Option ProjectStats := do
  let [filesNormalized, filesFailed, filesSkipped, callChains, functions, classes, imports, exports,
      fallbacks, durationMs] ←
    j.record?
      ["filesNormalized", "filesFailed", "filesSkipped", "callChains", "functions", "classes",
        "imports", "exports", "fallbacks", "durationMs"] | none
  return {
    filesNormalized := ← count? filesNormalized,
    filesFailed := ← count? filesFailed,
    filesSkipped := ← count? filesSkipped,
    callChains := ← count? callChains,
    functions := ← count? functions,
    classes := ← count? classes,
    imports := ← count? imports,
    exports := ← count? exports,
    fallbacks := ← FallbackCounters.ofJson? fallbacks,
    durationMs := ← count? durationMs }

end Polyglot
