import DebugLink.Schema.Registry

/-!
# The schemas of both wire dialects

For each dialect: the envelope that every incoming frame narrows, and the bodies of the commands
and events that are known.
-/

set_option autoImplicit false

namespace DebugLink.Catalog

def required (name : String) (kind : Kind) : Field :=
  ⟨name, name, false, false, kind, none⟩

def optional (name : String) (kind : Kind) : Field :=
  ⟨name, name, true, false, kind, none⟩

def nullable (field : Field) : Field :=
  { field with nullable := true }

def readFrom (wire : String) (field : Field) : Field :=
  { field with wire := wire }

def record (id : String) (fields : List Field) : Schema :=
  ⟨id, fields, true, none, none⟩

def subtypeOf (base id : String) (fields : List Field) : Schema :=
  ⟨id, fields, true, some base, none⟩

def discriminated (id : String) (candidates : List Candidate) : Schema :=
  ⟨id, [], true, none, some ⟨.discriminated, candidates⟩⟩

def v8Schemas : List Schema := [
  discriminated "V8Incoming" [
    ⟨"V8Response", [.isString "type" "response"]⟩,
    ⟨"V8Event", [.isString "type" "event"]⟩],
  subtypeOf "V8Incoming" "V8Response" [
    optional "seq" .long,
    readFrom "request_seq" (required "requestSeq" .long),
    optional "command" .string,
    required "success" .boolean,
    nullable (optional "body" .any),
    optional "refs" (.list (.record "V8Ref")),
    optional "running" .boolean,
    optional "message" .string],
  subtypeOf "V8Incoming" "V8Event" [
    optional "seq" .long,
    required "event" .string,
    nullable (optional "body" .any)],
  record "V8Ref" [
    required "handle" .long,
    optional "type" .string],
  record "V8ScriptRef" [
    required "id" .long,
    nullable (optional "name" .string),
    optional "lineOffset" .long,
    optional "columnOffset" .long],
  record "V8BreakBody" [
    optional "invocationText" .string,
    optional "sourceLine" .long,
    optional "sourceColumn" .long,
    optional "sourceLineText" .string,
    optional "script" (.record "V8ScriptRef"),
    optional "breakpoints" (.list .long),
    optional "uncaught" .boolean,
    optional "exception" .any],
  record "V8Frame" [
    required "index" .long,
    optional "receiver" .any,
    optional "func" .any,
    optional "script" .any,
    required "line" .long,
    required "column" .long,
    optional "sourceLineText" .string],
  record "V8BacktraceBody" [
    optional "fromFrame" .long,
    optional "toFrame" .long,
    required "totalFrames" .long,
    optional "frames" (.list (.record "V8Frame"))],
  discriminated "V8Value" [
    ⟨"V8ObjectValue", [.present "className"]⟩,
    ⟨"V8ScalarValue", [.absent "className", .present "value"]⟩,
    ⟨"V8SpecialValue", [.absent "className", .absent "value"]⟩],
  subtypeOf "V8Value" "V8ObjectValue" [
    optional "handle" .long,
    required "type" .string,
    required "className" .string,
    optional "properties" (.list .any),
    optional "text" .string],
  subtypeOf "V8Value" "V8ScalarValue" [
    optional "handle" .long,
    required "type" .string,
    required "value" .any,
    optional "text" .string],
  subtypeOf "V8Value" "V8SpecialValue" [
    optional "handle" .long,
    required "type" (.enumeration ["undefined", "null", "function", "frame", "script"]),
    optional "text" .string]]

def wipSchemas : List Schema := [
  discriminated "WipIncoming" [
    ⟨"WipResponse", [.present "id"]⟩,
    ⟨"WipEvent", [.absent "id", .present "method"]⟩],
  subtypeOf "WipIncoming" "WipResponse" [
    required "id" .long,
    optional "result" .any,
    optional "error" (.record "WipError")],
  subtypeOf "WipIncoming" "WipEvent" [
    required "method" .string,
    optional "params" .any],
  record "WipError" [
    optional "code" .long,
    required "message" .string,
    optional "data" .any],
  record "WipLocation" [
    required "scriptId" .string,
    required "lineNumber" .long,
    optional "columnNumber" .long],
  record "WipCallFrame" [
    required "callFrameId" .string,
    required "functionName" .string,
    required "location" (.record "WipLocation"),
    optional "scopeChain" (.list .any),
    optional "this" .any],
  record "WipPausedParams" [
    required "callFrames" (.list (.record "WipCallFrame")),
    required "reason" .string,
    optional "data" .any,
    optional "hitBreakpoints" (.list .string)],
  record "WipScriptParsed" [
    required "scriptId" .string,
    required "url" .string,
    required "startLine" .long,
    required "startColumn" .long,
    required "endLine" .long,
    required "endColumn" .long,
    readFrom "sourceMapURL" (optional "sourceMapUrl" .string)],
  record "WipRemoteObject" [
    required "type" (.enumeration ["object", "function", "undefined", "string", "number",
      "boolean", "symbol", "bigint"]),
    optional "subtype" .string,
    optional "className" .string,
    nullable (optional "value" .any),
    optional "description" .string,
    optional "objectId" .string],
  record "WipEvaluateResult" [
    required "result" (.record "WipRemoteObject"),
    optional "wasThrown" .boolean,
    optional "exceptionDetails" .any]]

def draft : Registry.Draft :=
  ⟨Registry.openRecord :: v8Schemas ++ wipSchemas⟩

def registry : Registry := ⟨draft.schemas⟩

end DebugLink.Catalog
