import DocGraph.InputType.Registry

set_option autoImplicit false

namespace DocGraph

namespace Printer

def description (indent : String) : Option String → String
  | none => ""
  | some text => s!"{indent}\"\"\"\n{indent}{text}\n{indent}\"\"\"\n"

def isPrintable (c : Char) : Bool := decide (' ' ≤ c ∧ c ≤ '~')

-- Quotes of both kinds, the backslash, tabs and line ends are escaped by a backslash, and
-- characters outside printable ASCII by their code point in braces.
def escapeChar (c : Char) : String :=
  match c with
  | '\t' => "\\t"
  | '\r' => "\\r"
  | '\n' => "\\n"
  | '\'' => "\\'"
  | '"' => "\\\""
  | '\\' => "\\\\"
  | _ =>
      if isPrintable c then String.singleton c
      else "\\u\x7b" ++ String.ofList (Nat.toDigits 16 c.toNat) ++ "\x7d"

def escape (text : String) : String := String.join (text.toList.map escapeChar)

def deprecation : Deprecation → String
  | .active => ""
  | .deprecated none => " @deprecated"
  | .deprecated (some reason) => s!" @deprecated(reason: \"{escape reason}\")"

def inputValue (value : InputValue) : String :=
  description "\t" value.description
    ++ s!"\t{value.name}: {value.type.text}" ++ deprecation value.deprecation ++ "\n"

def enumValue (value : EnumValue) : String :=
  description "\t" value.description ++ s!"\t{value.name}" ++ deprecation value.deprecation ++ "\n"

def block (lines : List String) : String := " \x7b\n" ++ String.join lines ++ "\x7d\n"

def inputType : InputType → String
  | .enum type =>
      description "" type.description ++ s!"enum {type.name}" ++ block (type.values.map enumValue)
  | .object type =>
      description "" type.description ++ s!"input {type.name}"
        ++ (if type.fields.isEmpty then "\n" else block (type.fields.map inputValue))

end Printer

def Registry.text (registry : Registry) : String :=
  "\n".intercalate (registry.entries.map (fun entry => Printer.inputType entry.2))

end DocGraph
