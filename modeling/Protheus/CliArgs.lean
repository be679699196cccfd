import Protheus.RustStd

/-! The `parse_flag` that the commands of `core/layer2/ops` read their flags with. -/

namespace Protheus.CliArgs

/-- `parse_flag`: `--key=value`, or `--key` and the argument after it. -/
def parseFlag (key : String) : List String → Option String
  | [] => none
  | token :: rest =>
    match RustStd.stripPrefix (RustStd.trim token) ("--" ++ key ++ "=") with
    | some value => some value
    | none =>
      if RustStd.trim token = "--" ++ key ∧ rest ≠ [] then rest.head? else parseFlag key rest

/-- The command of a line: its first argument, trimmed and in lower case. -/
def commandName (argv : List String) : String :=
  (argv.head?.map fun v => RustStd.toAsciiLowercase (RustStd.trim v)).getD "status"

end Protheus.CliArgs
