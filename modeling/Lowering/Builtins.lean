/-!
Names that are always bound in the compiled language.
-/
namespace Lowering

def builtinNames : List String :=
  ["ArithmeticError", "AssertionError", "AttributeError", "BaseException", "BaseExceptionGroup",
    "BlockingIOError", "BrokenPipeError", "BufferError", "BytesWarning", "ChildProcessError",
    "ConnectionAbortedError", "ConnectionError", "ConnectionRefusedError", "ConnectionResetError",
    "DeprecationWarning", "EOFError", "Ellipsis", "EncodingWarning", "EnvironmentError",
    "Exception", "ExceptionGroup", "False", "FileExistsError", "FileNotFoundError",
    "FloatingPointError", "FutureWarning", "GeneratorExit", "IOError", "ImportError",
    "ImportWarning", "IndentationError", "IndexError", "InterruptedError", "IsADirectoryError",
    "KeyError", "KeyboardInterrupt", "LookupError", "MemoryError", "ModuleNotFoundError",
    "NameError", "None", "NotADirectoryError", "NotImplemented", "NotImplementedError", "OSError",
    "OverflowError", "PendingDeprecationWarning", "PermissionError", "ProcessLookupError",
    "RecursionError", "ReferenceError", "ResourceWarning", "RuntimeError", "RuntimeWarning",
    "StopAsyncIteration", "StopIteration", "SyntaxError", "SyntaxWarning", "SystemError",
    "SystemExit", "TabError", "TimeoutError", "True", "TypeError", "UnboundLocalError",
    "UnicodeDecodeError", "UnicodeEncodeError", "UnicodeError", "UnicodeTranslateError",
    "UnicodeWarning", "UserWarning", "ValueError", "Warning", "ZeroDivisionError",
    "__annotations__", "__build_class__", "__class__", "__debug__", "__delattr__", "__dict__",
    "__dir__", "__doc__", "__eq__", "__format__", "__ge__", "__getattribute__", "__getstate__",
    "__gt__", "__hash__", "__import__", "__init__", "__init_subclass__", "__le__", "__loader__",
    "__lt__", "__name__", "__ne__", "__new__", "__package__", "__reduce__", "__reduce_ex__",
    "__repr__", "__setattr__", "__sizeof__", "__spec__", "__str__", "__subclasshook__", "abs",
    "aiter", "all", "anext", "any", "ascii", "bin", "bool", "breakpoint", "bytearray", "bytes",
    "callable", "chr", "classmethod", "compile", "complex", "copyright", "credits", "delattr",
    "dict", "dir", "divmod", "enumerate", "eval", "exec", "exit", "filter", "float", "format",
    "frozenset", "getattr", "globals", "hasattr", "hash", "help", "hex", "id", "input", "int",
    "isinstance", "issubclass", "iter", "len", "license", "list", "locals", "map", "max",
    "memoryview", "min", "next", "object", "oct", "open", "ord", "pow", "print", "property", "quit",
    "range", "repr", "reversed", "round", "set", "setattr", "slice", "sorted", "staticmethod",
    "str", "sum", "super", "tuple", "type", "vars", "zip"]

def builtinFunctions : List String :=
  ["__build_class__", "__dir__", "__format__", "__getstate__", "__import__", "__init_subclass__",
    "__new__", "__reduce__", "__reduce_ex__", "__sizeof__", "__subclasshook__", "abs", "aiter",
    "all", "anext", "any", "ascii", "bin", "breakpoint", "callable", "chr", "compile", "delattr",
    "dir", "divmod", "eval", "exec", "format", "getattr", "globals", "hasattr", "hash", "hex", "id",
    "input", "isinstance", "issubclass", "iter", "len", "locals", "max", "min", "next", "oct",
    "open", "ord", "pow", "print", "repr", "round", "setattr", "sorted", "sum", "vars"]

def builtinMethods : List String :=
  ["__delattr__", "__eq__", "__ge__", "__getattribute__", "__gt__", "__hash__", "__init__", "__le__",
    "__lt__", "__ne__", "__repr__", "__setattr__", "__str__"]

def builtinObjects : List (String × String) :=
  [("Ellipsis", "ellipsis"), ("NotImplemented", "NotImplementedType"), ("__annotations__", "dict"),
    ("__dict__", "dict"), ("__spec__", "ModuleSpec"), ("copyright", "_Printer"),
    ("credits", "_Printer"), ("license", "_Printer"), ("exit", "Quitter"), ("quit", "Quitter"),
    ("help", "_Helper")]

/-- The class of what a built-in name is bound to. The rest are classes themselves. -/
def builtinClass (name : String) : String :=
  if builtinFunctions.contains name then "builtin_function_or_method"
  else if builtinMethods.contains name then "method-wrapper"
  else (builtinObjects.lookup name).getD "type"

/-- Whether a name is looked up among the built-in names rather than the globals. -/
def isBuiltin (name : String) : Bool := builtinNames.contains name

end Lowering
