/-
# The names of the test idiom

A test that the harvester understands reads like this:

    @Test
    public void testIt() throws Exception {
        final DefaultConfiguration config = createModuleConfig(FooCheck.class);
        config.addAttribute("format", "FIXME:");
        verify(config, getPath("InputFoo.java"), expected);
    }

Every name that is matched stands in this module and nowhere else.

A type or an annotation is known by the text that the source writes.  Imports are
not read, so `Test` is always the annotation, and a class of one's own that is
called `File` is a file handle.

Some names stand for several: a verification has three, and a path four builders,
three of which point into the same directory.  A factory of any other name is no factory.
-/

namespace PropertyHarvest.Idiom

def testAnnotations : List String :=
  ["Test", "org.junit.Test", "org.junit.jupiter.api.Test"]

def configurationTypes : List String :=
  ["DefaultConfiguration", "Configuration"]

/-- The declared types of a file handle, which must be `final` as well. -/
def fileHandleTypes : List String :=
  ["File"]

/-- What a file handle is asked for its path with. -/
def filePathAccessor : String := "getPath"

/-- The call that sets a property on a configuration handle. -/
def setPropertyMethod : String := "addAttribute"

/-- The accessors that turn an enum constant into its name. -/
def enumNameAccessors : List String :=
  ["toString", "getName", "name"]

/-- The calls that check a configuration against an input. -/
def verifyMethods : List String :=
  ["verify", "verifyWarns", "verifySuppressed"]

def rootModule : String := "Checker"

def treeWalkerModule : String := "TreeWalker"

/-- Where the inputs that compile are kept. -/
def resourceDir : String := "src/test/resources/"

/-- Where the inputs that need not compile are kept. -/
def nonCompilableResourceDir : String := "src/test/resources-noncompilable/"

def isTestAnnotation (name : String) : Bool :=
  testAnnotations.contains name

def isConfigurationType (name : String) : Bool :=
  configurationTypes.contains name

def isFileHandleType (name : String) : Bool :=
  fileHandleTypes.contains name

def isEnumNameAccessor (name : String) : Bool :=
  enumNameAccessors.contains name

def isVerifyMethod (name : String) : Bool :=
  verifyMethods.contains name

/-! ## Factories of configurations -/

/-- What a factory call configures. -/
inductive Factory where
  /-- The top-level checker. -/
  | root
  /-- The tree walker. -/
  | treeWalker
  /-- The module that the argument names. -/
  | fromArgument
  deriving DecidableEq, Repr

def Factory.ofName? : String → Option Factory
  | "createRootConfig" => some .root
  | "createTreeWalkerConfig" => some .treeWalker
  | "createModuleConfig" => some .fromArgument
  | "getModuleConfig" => some .fromArgument
  | _ => none

/-! ## Helpers that build a path -/

/-- The helpers that turn a file name into the path of a test input. -/
inductive PathBuilder where
  | getPath
  | getUriString
  | getResourcePath
  | getNonCompilablePath
  deriving DecidableEq, Repr

def PathBuilder.ofName? : String → Option PathBuilder
  | "getPath" => some .getPath
  | "getUriString" => some .getUriString
  | "getResourcePath" => some .getResourcePath
  | "getNonCompilablePath" => some .getNonCompilablePath
  | _ => none

/-- The directory that the built path points into. -/
def PathBuilder.dir : PathBuilder → String
  | .getPath | .getUriString | .getResourcePath => resourceDir
  | .getNonCompilablePath => nonCompilableResourceDir

end PropertyHarvest.Idiom
