/-!
# What a kernel says about itself
-/

namespace Nock.Notebook.About

/-- A page that a reader is pointed to. -/
structure Link where
  text : String
  url : String

/-- How the language is presented to an editor. -/
structure Language where
  name : String
  version : String
  mimeType : String
  fileExtension : String

def implementation : String := "Nock"

def implementationVersion : String := "1.0"

def language : Language := ⟨"nock", "4K", "text/plain", ".nock"⟩

/-- The greeting. -/
def banner : String :=
  String.intercalate "\n" [
    "Nock 4K Kernel - An Urbit Nock interpreter",
    "Version 1.0",
    "Copyright (c) 2025 N. E. Davis for Urbit Systems Technical Journal",
    "License: MIT",
    "",
    "For help, type :help",
    ""]

def links : List Link := [
  ⟨"Nock Specification", "https://nock.is/content/specification/index.html"⟩,
  ⟨"Urbit Documentation", "https://docs.urbit.org"⟩,
  ⟨"NockApp Documentation", "https://docs.nockchain.org"⟩]

/-- The version under which the operations and the kernel are published. -/
def version : String := "1.2.1"

/-- The names under which the operations on nouns are published. -/
def nounNames : List String := [
  "nock", "to_noun", "isatom", "iscell", "head", "tail", "wut", "lus", "tis", "fas", "hax", "tru",
  "bad", "Cell", "deep", "parse", "parse_noun", "noun", "pretty", "mug", "jam", "cue"]

/-- The names under which the kernel is published. -/
def kernelNames : List String := ["NockKernel"]

/-- The list of commands. -/
def help : String :=
  String.intercalate "\n" [
    "Nock Kernel Commands:",
    "    :subject <noun>    - Set the subject for subsequent formulas",
    "    :formula <formula> - Evaluate formula against current subject",
    "    :nock <expr>       - Evaluate full nock expression [subject formula]",
    "    :show              - Show current subject and last result",
    "    :<varname>         - Define variable 'varname' with a noun value",
    "    :show <varname>    - Show value of variable 'varname'",
    "    :help              - Show this help message",
    "",
    "    Hoon Syntax:",
    "    .*(subject formula) - Evaluate using Hoon dottar syntax",
    "",
    "    Examples:",
    "    :subject [42 43 44]",
    "    :formula [0 2]              # Returns 42",
    "    :nock [[1 2] [0 1]]         # Returns [1 2]",
    "    .*(42 [0 1])                # Hoon syntax - returns 42",
    "    .*([1 2 3] [0 2])           # Returns 1",
    "    ",
    "    You can also evaluate formulas directly (uses current subject):",
    "    [0 1]                       # Same as :formula [0 1]",
    "    [4 0 1]                     # Increment the subject",
    "",
    "    :increment [4 0 1]",
    "    .*(43 increment)",
    "    "]

end Nock.Notebook.About
