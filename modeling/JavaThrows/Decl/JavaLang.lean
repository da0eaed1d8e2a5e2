set_option autoImplicit false

/-!
# Names that Java itself provides

The primitive types, and the types of `java.lang` that are assumed where a file uses their simple
names without saying where they come from.
-/

namespace JavaThrows.JavaLang

/-- The primitive types, `void` included. -/
def primitives : List String :=
  ["boolean", "byte", "char", "short", "int", "long", "float", "double", "void"]

/-- The erasure of a type variable without a bound. -/
def object : String := "java.lang.Object"

/-- The simple names of the common types of `java.lang`. -/
def types : List String :=
  ["Object", "String", "Class", "ClassLoader", "Enum", "Record", "Iterable", "Comparable",
    "CharSequence", "AutoCloseable", "Cloneable", "Runnable", "Thread", "ThreadLocal", "Math",
    "StrictMath", "System", "Runtime", "Process", "ProcessBuilder", "StringBuilder",
    "StringBuffer", "StackTraceElement", "Module", "Package", "Number", "Integer", "Long", "Short",
    "Byte", "Character", "Boolean", "Double", "Float", "Void", "Override", "Deprecated",
    "SuppressWarnings", "FunctionalInterface", "SafeVarargs", "Throwable", "Exception",
    "RuntimeException", "Error", "ArithmeticException", "ArrayIndexOutOfBoundsException",
    "ArrayStoreException", "ClassCastException", "ClassNotFoundException",
    "CloneNotSupportedException", "EnumConstantNotPresentException", "IllegalAccessException",
    "IllegalArgumentException", "IllegalCallerException", "IllegalMonitorStateException",
    "IllegalStateException", "IndexOutOfBoundsException", "InstantiationException",
    "InterruptedException", "NegativeArraySizeException", "NoSuchFieldException",
    "NoSuchMethodException", "NullPointerException", "NumberFormatException",
    "ReflectiveOperationException", "SecurityException", "StringIndexOutOfBoundsException",
    "TypeNotPresentException", "UnsupportedOperationException", "AssertionError",
    "ExceptionInInitializerError", "InternalError", "LinkageError", "NoClassDefFoundError",
    "OutOfMemoryError", "StackOverflowError", "VirtualMachineError"]

end JavaThrows.JavaLang
