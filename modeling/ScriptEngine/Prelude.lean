/-!
# The prelude

The declarations that every session starts with, as source text: the exception classes, tuples and
pairs.  They live in the outermost scope, beside the builtin functions.
-/

namespace ScriptEngine

/-- The lines of the prelude.  Faults and throws in its methods are reported with their place in
this text. -/
def preludeLines : List String :=
  [
    "// Builtin exception hierarchy and value classes, installed into every runtime.",
    "",
    "class Throwable",
    "    var message = \"\"",
    "",
    "    Throwable():",
    "        this.message = \"\"",
    "    end",
    "",
    "    Throwable(message):",
    "        this.message = message",
    "    end",
    "",
    "    def getMessage():",
    "        return this.message",
    "    end",
    "",
    "    def toString():",
    "        return Sys.type(this) + \": \" + str(this.message)",
    "    end",
    "end",
    "",
    "class Exception < Throwable",
    "end",
    "",
    "class RuntimeError < Exception",
    "end",
    "",
    "class TypeError < RuntimeError",
    "end",
    "",
    "class ArityError < RuntimeError",
    "end",
    "",
    "class TimeoutError < RuntimeError",
    "end",
    "",
    "class CancellationError < RuntimeError",
    "end",
    "",
    "class NameError < RuntimeError",
    "end",
    "",
    "class ValueError < RuntimeError",
    "end",
    "",
    "class AttributeError < RuntimeError",
    "end",
    "",
    "class IndexError < RuntimeError",
    "end",
    "",
    "// Immutable fixed-size sequence of any values.",
    "class Tuple",
    "    private final elements: Array",
    "",
    "    Tuple(items...):",
    "        this.elements = items",
    "    end",
    "",
    "    def size() -> Int = len(this.elements)",
    "",
    "    def get(index: Int):",
    "        if index < 0 || index >= len(this.elements):",
    "            throw IndexError(\"index out of bounds: \" + index + \" (size: \" + len(this.elements) + \")\")",
    "        end",
    "        return this.elements[index]",
    "    end",
    "",
    "    def pieces() -> Int = len(this.elements)",
    "",
    "    def getPiece(index: Int) = this.get(index)",
    "",
    "    def toArray() -> Array = [] + this.elements",
    "",
    "    def toString() -> String = \"(\" + this.elements.join(\", \") + \")\"",
    "end",
    "",
    "// Key-value pair; the key is fixed once constructed.",
    "class Pair<K, V>",
    "    final key: K",
    "    var value: V",
    "",
    "    Pair(key: K, value: V):",
    "        this.key = key",
    "        this.value = value",
    "    end",
    "",
    "    def getKey() -> K = this.key",
    "",
    "    def getValue() -> V = this.value",
    "",
    "    def setValue(value: V):",
    "        this.value = value",
    "    end",
    "",
    "    def toString() -> String = str(this.key) + \"=\" + str(this.value)",
    "end",
    ""
  ]

def preludeSource : String := "\n".intercalate preludeLines

end ScriptEngine
