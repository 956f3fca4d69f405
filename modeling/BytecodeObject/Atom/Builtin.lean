set_option autoImplicit false

/-!
# Builtin atoms

Texts that every stream may refer to by id without listing them. Their order is part of the format.
-/

namespace BytecodeObject.Atom

/-- The builtin texts, in the order of their ids. Id 0 is the null atom; its text, the empty one,
stands a second time further on. -/
def builtin : List String :=
  ["", "null", "false", "true", "if", "else", "return", "var", "this", "delete", "void", "typeof",
    "new", "in", "instanceof", "do", "while", "for", "break", "continue", "switch", "case",
    "default", "throw", "try", "catch", "finally", "function", "debugger", "with", "class",
    "const", "enum", "export", "extends", "import", "super", "implements", "interface", "let",
    "package", "private", "protected", "public", "static", "yield", "await", "", "length",
    "fileName", "lineNumber", "message", "errors", "stack", "name", "toString", "toLocaleString",
    "valueOf", "eval", "prototype", "constructor", "configurable", "writable", "enumerable",
    "value", "get", "set", "of", "__proto__", "undefined", "number", "boolean", "string", "object",
    "symbol", "integer", "unknown", "arguments", "callee", "caller", "<eval>", "<ret>", "<var>",
    "<arg_var>", "<with>", "lastIndex", "target", "index", "input", "defineProperties", "apply",
    "join", "concat", "split", "construct", "getPrototypeOf", "setPrototypeOf", "isExtensible",
    "preventExtensions", "has", "deleteProperty", "defineProperty", "getOwnPropertyDescriptor",
    "ownKeys", "add", "done", "next", "values", "source", "flags", "global", "unicode", "raw",
    "new.target", "this.active_func", "<home_object>", "<computed_field>",
    "<static_computed_field>", "<class_fields_init>", "<brand>", "#constructor", "as", "from",
    "meta", "*default*", "*", "Module", "then", "resolve", "reject", "promise", "proxy", "revoke",
    "async", "exec", "groups", "status", "reason", "globalThis", "not-equal", "timed-out", "ok",
    "toJSON", "Object", "Array", "Error", "Number", "String", "Boolean", "Symbol", "Arguments",
    "Math", "JSON", "Date", "Function", "GeneratorFunction", "ForInIterator", "RegExp",
    "ArrayBuffer", "SharedArrayBuffer", "Uint8ClampedArray", "Int8Array", "Uint8Array",
    "Int16Array", "Uint16Array", "Int32Array", "Uint32Array", "Float32Array", "Float64Array",
    "DataView", "Map", "Set", "WeakMap", "WeakSet", "Map Iterator", "Set Iterator",
    "Array Iterator", "String Iterator", "RegExp String Iterator", "Generator", "Proxy", "Promise",
    "PromiseResolveFunction", "PromiseRejectFunction", "AsyncFunction", "AsyncFunctionResolve",
    "AsyncFunctionReject", "AsyncGeneratorFunction", "AsyncGenerator", "EvalError", "RangeError",
    "ReferenceError", "SyntaxError", "TypeError", "URIError", "InternalError", "<brand>",
    "Symbol.toPrimitive", "Symbol.iterator", "Symbol.match", "Symbol.matchAll", "Symbol.replace",
    "Symbol.search", "Symbol.split", "Symbol.toStringTag", "Symbol.isConcatSpreadable",
    "Symbol.hasInstance", "Symbol.species", "Symbol.unscopables", "Symbol.asyncIterator"]

def builtinCount : Nat := 210

set_option maxRecDepth 2000 in
theorem length_builtin : builtin.length = builtinCount := rfl

end BytecodeObject.Atom
