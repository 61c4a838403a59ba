/-! Layouts of structured values: on one line, or with a line for each part. -/
namespace LS8.Text

/-- A value's text in both layouts. -/
structure Outline where
  compact : String
  /-- The lines of the expanded layout; there is at least one. -/
  expanded : List String

namespace Outline

def atom (text : String) : Outline := ⟨text, [text]⟩

/-- Puts text before the first line. -/
def before (text : String) : List String → List String
  | [] => [text]
  | line :: rest => (text ++ line) :: rest

/-- Puts text after the last line. -/
def after (text : String) : List String → List String
  | [] => [text]
  | [line] => [line ++ text]
  | line :: rest => line :: after text rest

def indent (lines : List String) : List String := lines.map ("    " ++ ·)

def named (name : String) (value : Outline) : Outline :=
  ⟨name ++ ": " ++ value.compact, before (name ++ ": ") value.expanded⟩

/-- Parts between brackets, each on lines of its own with a comma when expanded. -/
def block (start : String) (lines : List String) (stop : String) : List String :=
  start :: indent lines ++ [stop]

def items (parts : List Outline) : List String := parts.flatMap fun p => after "," p.expanded

def call (name argument : String) : Outline :=
  ⟨name ++ "(" ++ argument ++ ")", block (name ++ "(") (items [atom argument]) ")"⟩

/-- Entries in braces. -/
def table (entries : List (String × Outline)) : Outline :=
  let parts := entries.map fun (name, value) => named name value
  ⟨"\x7b" ++ ", ".intercalate (parts.map compact) ++ "\x7d", block "\x7b" (items parts) "\x7d"⟩

/-- A name with fields; `more` stands for fields that are left out. -/
def record (name : String) (fields : List (String × Outline)) (more : Bool) : Outline :=
  let parts := fields.map fun (field, value) => named field value
  let rest := if more then [".."] else []
  ⟨name ++ " \x7b " ++ ", ".intercalate (parts.map compact ++ rest) ++ " \x7d",
    block (name ++ " \x7b") (items parts ++ rest) "\x7d"⟩

/-- The text in the expanded layout, or else in the compact one. -/
def text (o : Outline) (pretty : Bool) : String :=
  if pretty then "\n".intercalate o.expanded else o.compact

end Outline

end LS8.Text
