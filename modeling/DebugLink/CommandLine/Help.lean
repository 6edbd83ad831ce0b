import DebugLink.CommandLine.Options

/-!
# Help on the command line

What is printed in place of a run: the help, the version, or what is wrong with the arguments.
-/

set_option autoImplicit false

namespace DebugLink.CommandLine

def helpText : String :=
  "Attach to a V8 or WebInspector debug endpoint and print protocol traffic\n" ++
  "\n" ++
  "Usage: jsdebug [OPTIONS] --endpoint <ENDPOINT>\n" ++
  "\n" ++
  "Options:\n" ++
  "      --endpoint <ENDPOINT>  Debug endpoint (\x60tcp://host:port\x60 or " ++
    "\x60unix:///path\x60)\n" ++
  "      --config <CONFIG>      Session configuration file\n" ++
  "      --dialect <DIALECT>    Wire dialect (\x60v8\x60 or \x60wip\x60); overrides the " ++
    "configuration file\n" ++
  "      --command <NAME>       Command to send; repeatable\n" ++
  "      --params <JSON>        JSON parameters for the preceding \x60--command\x60\n" ++
  "      --timeout <TIMEOUT>    Seconds to wait for each reply [default: 10]\n" ++
  "  -h, --help                 Print help\n" ++
  "  -V, --version              Print version\n"

def versionText : String := "jsdebug 0.3.0\n"

def Name.text : Name → String
  | .endpoint => "--endpoint <ENDPOINT>"
  | .config => "--config <CONFIG>"
  | .dialect => "--dialect <DIALECT>"
  | .command => "--command <NAME>"
  | .params => "--params <JSON>"
  | .timeout => "--timeout <TIMEOUT>"

namespace Halt

def text : Halt → String
  | .missingEndpoint =>
    "error: the following required arguments were not provided:\n  " ++ Name.endpoint.text ++ "\n"
  | .noValue name => "error: a value is required for '" ++ name.text ++ "' but none was supplied\n"
  | .invalidValue name value => "error: invalid value '" ++ value ++ "' for '" ++ name.text ++ "'\n"
  | .unknown argument => "error: unexpected argument '" ++ argument ++ "' found\n"
  | .repeated name =>
    "error: the argument '" ++ name.text ++ "' cannot be used multiple times\n"
  | .needlessValue argument => "error: unexpected value in '" ++ argument ++ "'\n"
  | .help => helpText
  | .version => versionText

def isRequested : Halt → Bool
  | .help | .version => true
  | _ => false

def exitCode (halt : Halt) : UInt32 :=
  if halt.isRequested then 0 else 2

end Halt

end DebugLink.CommandLine
