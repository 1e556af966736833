import InverterMonitor.Server.Authorization
import InverterMonitor.Server.Monitor
import InverterMonitor.Server.SaveRules

/-!
# The command server

`handleHttpReqCommand` and `handleCommandRequest` of `server_command.hpp`.  The
handler gives the new state, the reply, the rule commands that were run and the
line that it hands to `parseCommand`.
-/

namespace InverterMonitor.Http
open Text Cxx Json Registers Rules

/-! ## Answers -/

def jsonEscapeLocal (input : Bytes) : Bytes := jsonEscape input

/-- `"key":value` -/
def jsonMember (key : String) (value : Bytes) : Bytes :=
  ('"' : Byte) :: (ascii key ++ ascii "\":" ++ value)

def jsonText (value : Bytes) : Bytes := ('"' : Byte) :: (jsonEscapeLocal value ++ ascii "\"")

def jsonList {α : Type} (item : α → Bytes) (items : List α) : Bytes :=
  ascii "[" ++ (ascii ",").intercalate (items.map item) ++ ascii "]"

def conditionToJson (condition : RuleCondition) : Bytes :=
  ascii "\x7b" ++ jsonMember "inputType" (jsonText condition.inputType.text) ++ ascii "," ++
  jsonMember "inputAddress" (decimal condition.inputAddress.toNat) ++ ascii "," ++
  jsonMember "operator" (jsonText condition.op.text) ++ ascii "," ++
  (if condition.valueInputType ≠ .unknown then
    jsonMember "valueType" (jsonText condition.valueInputType.text) ++ ascii "," ++
    jsonMember "valueAddress" (decimal condition.valueInputAddress.toNat)
  else
    jsonMember "value" (if condition.valueIsString then jsonText condition.valueString
      else formatGeneral 6 condition.valueNumber)) ++
  ascii "\x7d"

def commandToJson (command : RuleCommand) : Bytes :=
  ascii "\x7b" ++ jsonMember "type" (jsonText command.type.text) ++
  (if command.data = [] then [] else ascii "," ++ jsonMember "data" (jsonText command.data)) ++
  (if 0 < command.address then ascii "," ++ jsonMember "address" (decimal command.address.toNat)
    else []) ++
  ascii "\x7d"

def ruleToJson (rule : Rule) : Bytes :=
  ascii "\x7b" ++ jsonMember "id" (decimal rule.id.toNat) ++ ascii "," ++
  jsonMember "enabled" (if rule.enabled then ascii "true" else ascii "false") ++ ascii "," ++
  jsonMember "name" (jsonText rule.name) ++ ascii "," ++
  jsonMember "conditions" (jsonList conditionToJson rule.conditions) ++ ascii "," ++
  jsonMember "commands" (jsonList commandToJson rule.commands) ++
  ascii "\x7d"

def rulesToJson (rules : List Rule) : Bytes := jsonList ruleToJson rules

/-! ## Chart data -/

/-- A line of a data file within the bounds. -/
def readPoint (fromTimestamp toTimestamp line : Bytes) : Option (Bytes × Float) := do
  let (timestamp, s) ← nextWord (trimString line)
  let (value, _) ← extractDouble s
  if timestamp < fromTimestamp ∨ toTimestamp < timestamp then none else some (timestamp, value)

/-- Points at evenly spread indices, the first and the last among them. -/
def selectPoints (filtered : List (Bytes × Float)) (maxPoints : Nat) : List (Bytes × Float) :=
  let step := Float.ofNat (filtered.length - 1) / Float.ofNat (maxPoints - 1)
  (List.range maxPoints).filterMap fun index =>
    filtered[min (roundHalfAway (Float.ofNat index * step)) (filtered.length - 1)]?

def readDataFilePointsInRange (file : Option Bytes) (fromTimestamp toTimestamp : Bytes)
    (maxPoints : Nat) : List (Bytes × Float) :=
  if fromTimestamp = [] ∨ toTimestamp = [] ∨ maxPoints = 0 then []
  else
    match file with
    | none => []
    | some content =>
      let filtered := (getLines content).filterMap (readPoint fromTimestamp toTimestamp)
      if filtered.length ≤ maxPoints then filtered
      else if maxPoints = 1 then filtered.getLast?.toList
      else selectPoints filtered maxPoints

/-- The file of a chart. -/
def chartFile (chartNo : Nat) : Option Bytes :=
  match chartNo with
  | 1 => some (ascii "power.dat")
  | 2 => some (ascii "battery.dat")
  | 3 => some (ascii "batterycurr.dat")
  | 4 => some (ascii "loadcurr.dat")
  | 5 => some (ascii "pvvoltage.dat")
  | 10 => some (ascii "temperature0.dat")
  | 11 => some (ascii "temperature1.dat")
  | 12 => some (ascii "temperature2.dat")
  | 13 => some (ascii "temperature3.dat")
  | _ => none

/-- A bar at the end is dropped; an empty bound is replaced by the last instant. -/
def upperBound (toTimestamp : Bytes) : Bytes :=
  let bound := if toTimestamp.getLast? = some ('|' : Byte) then toTimestamp.dropLast else toTimestamp
  if bound = [] then ascii "9999-12-31T23:59:59Z" else bound

def pointText (point : Bytes × Float) : Bytes :=
  point.1 ++ ascii " " ++ formatFixed 6 point.2 ++ ascii "\n"

/-- The answer to the arguments of `REQ`, `none` for arguments it rejects. -/
def chartData (env : Environment) (s : Bytes) : Option Bytes := do
  let (chartNo, s) ← extractUnsigned 32 s
  let (pointsCount, s) ← extractUnsigned 64 s
  let (fromTimestamp, s) ← nextWord s
  let (toTimestamp, _) ← nextWord s
  let filename ← chartFile chartNo
  if pointsCount = 0 then none
  else return (readDataFilePointsInRange (env.dataFile filename) fromTimestamp
    (upperBound toTimestamp) pointsCount).flatMap pointText

/-! ## Commands for the server -/

/-- What `handleHttpReqCommand` returns, leaves and runs. -/
structure Handled where
  success : Bool
  responseBody : Bytes := []
  engine : Engine
  run : List Executed := []

def okText : Bytes := ascii "OK"

/-- A rule number, which must not be zero. -/
def readRuleNo (s : Bytes) : Option UInt32 := do
  let (ruleNo, _) ← extractUnsigned 64 s
  if ruleNo = 0 then none else some ruleNo.toUInt32

def reloadRules (env : Environment) (engine : Engine) : Except Failure Handled := do
  let (loaded, store) ← loadRules env.rulesFile engine.store
  if loaded then return { success := true, responseBody := okText, engine := engine.setStore store }
  else return { success := false, responseBody := ascii "Failed to reload rules", engine := engine }

/-- `ENABLERULE` and `DISABLERULE`. -/
def switchRuleByNumber (env : Environment) (enabled : Bool) (s : Bytes) (engine : Engine) : Handled :=
  match readRuleNo s with
  | none => { success := false, engine := engine }
  | some ruleNo =>
    let (result, store) := setRuleEnabled env.saves ruleNo enabled engine.store
    { success := result
      responseBody := if result then okText
        else ascii "Failed to " ++ (if enabled then ascii "enable" else ascii "disable") ++
          ascii " rule"
      engine := engine.setStore store }

def executeRuleByNumber (env : Environment) (s : Bytes) (engine : Engine) : Handled :=
  match readRuleNo s with
  | none => { success := false, engine := engine }
  | some ruleNo =>
    let (result, events, engine) := executeRuleCommands env.saves ruleNo engine
    { success := result
      responseBody := if result then okText else ascii "Failed to execute rule"
      engine := engine
      run := events.flatMap fun event =>
        match event with
        | .executed _ run => run
        | _ => [] }

/-- The arguments of `SETVAR`. -/
def readVariable (s : Bytes) : Option (UInt32 × Float) := do
  let (address, s) ← extractUnsigned 64 s
  let (value, _) ← extractDouble s
  return (address.toUInt32, value)

def setVariableByNumber (s : Bytes) (engine : Engine) : Handled :=
  match readVariable s with
  | none => { success := false, engine := engine }
  | some (address, value) =>
    { success := true, responseBody := okText
      engine := engine.setVars (setVariable address value engine.vars) }

def answerChart (env : Environment) (s : Bytes) (engine : Engine) : Handled :=
  match chartData env s with
  | none => { success := false, engine := engine }
  | some responseBody => { success := true, responseBody := responseBody, engine := engine }

def handleHttpReqCommand (env : Environment) (authorized : Bool) (command : Bytes)
    (engine : Engine) : Except Failure Handled :=
  let trimmed := if command.getLast? = some newline then command.dropLast else command
  let refused : Handled := { success := false, engine := engine }
  match nextWord trimmed with
  | none => .ok refused
  | some (token, s) =>
    if token = ascii "GETRULES" then
      .ok { success := true, responseBody := rulesToJson engine.store.rules, engine := engine }
    else if token = ascii "RELOADRULES" then
      if authorized then reloadRules env engine else .ok refused
    else if token = ascii "ENABLERULE" ∨ token = ascii "DISABLERULE" then
      if authorized then .ok (switchRuleByNumber env (token = ascii "ENABLERULE") s engine)
      else .ok refused
    else if token = ascii "EXECUTERULE" then
      if authorized then .ok (executeRuleByNumber env s engine) else .ok refused
    else if token = ascii "SETVAR" then
      if authorized then .ok (setVariableByNumber s engine) else .ok refused
    else if token = ascii "REQ" then .ok (answerChart env s engine)
    else .ok refused

/-! ## Uploads -/

/-- The content of a part of a multipart body.  The two bytes before the next
boundary are left out; where there are fewer, the rest of the body is taken. -/
def extractPart (boundary data : Bytes) (fieldName : String) : Option Bytes := do
  let fieldSearch := ascii "name=\"" ++ ascii fieldName ++ ascii "\""
  let partPos ← find fieldSearch data
  let _ ← rfind boundary data partPos
  let headerEndPos ← findFrom (lineBreak ++ lineBreak) data partPos
  let contentStart := headerEndPos + 4
  let nextBoundary ← findFrom boundary data contentStart
  if nextBoundary < contentStart + 2 then return data.drop contentStart
  else return (data.drop contentStart).take (nextBoundary - contentStart - 2)

/-- `--` and the text after `boundary=`. -/
def boundaryOf (contentType : Bytes) : Option Bytes :=
  let boundaryPrefix := ascii "boundary="
  (find boundaryPrefix contentType).map fun boundaryPos =>
    stripCarriageReturn (ascii "--" ++ contentType.drop (boundaryPos + boundaryPrefix.length))

/-- The session id and the file content of an upload. -/
def readUpload (headers : Headers) (body : Bytes) : Except Reply (Bytes × Bytes) :=
  match boundaryOf headers.contentType with
  | none => .error (badRequest "Missing boundary")
  | some boundary =>
    match extractPart boundary body "sessionId" with
    | none => .error (badRequest "Missing sessionId field")
    | some sessionId =>
      match extractPart boundary body "firmware" with
      | none => .error (badRequest "Missing firmware file")
      | some fileContent =>
        if trimString sessionId = [] then .error (badRequest "Invalid sessionId")
        else .ok (trimString sessionId, fileContent)

/-! ## Requests -/

/-- What a request leaves behind: the state, the reply, the rule commands that
were run and the line that was handed to `parseCommand`. -/
structure Outcome where
  server : Server
  reply : Option Reply
  run : List Executed := []
  forwarded : Option Bytes := none

/-- The session check: whether the id is valid, and the state after it. -/
def acceptSession (env : Environment) (sessionId : Bytes) (server : Server) : Bool × Server :=
  let sessions := server.sessions.removeExpiredSessions env.cleanupTime
  if h : sessionId ∈ sessions.validSessions then
    (true, { server with
      sessions := sessions.touch sessionId env.sessionTime (sessions.generated sessionId h) })
  else (false, { server with sessions := sessions })

/-- `firmware.bin` gets what there is room for.  `out.write` fails when the content goes to the
file at once; what the stream still holds is lost in `out.close`, which nothing checks. -/
def writeFirmware (env : Environment) (fileContent : Bytes) (server : Server) : Outcome :=
  match env.firmwareRoom with
  | none => { server := server, reply := some (serverError "Unable to save firmware") }
  | some room =>
    { server := { server with firmware := some (fileContent.take room) }
      reply := some (
        if fileContent.length ≤ room ∨ fileContent.length < env.firmwareBuffer then
          ok (ascii "Firmware uploaded successfully")
        else serverError "Write failed") }

def handleUpload (env : Environment) (headers : Headers) (body : Bytes) (server : Server) :
    Outcome :=
  match readUpload headers body with
  | .error reply => { server := server, reply := some reply }
  | .ok (sessionId, fileContent) =>
    let (accepted, server) := acceptSession env sessionId server
    if accepted then writeFirmware env fileContent server
    else { server := server, reply := some (unauthorized "Invalid session") }

/-- The requests that need no session. -/
def handleOpenCommand (env : Environment) (body : Bytes) (invalid : String) (server : Server) :
    Except Failure Outcome := do
  let handled ← handleHttpReqCommand env false body server.engine
  return { server := { server with engine := handled.engine }
           reply := some (if handled.success then ok handled.responseBody else badRequest invalid)
           run := handled.run }

/-- A command behind a valid session id.  What the server does not handle goes to
the monitor clients. -/
def handleSessionCommand (env : Environment) (command : Bytes) (server : Server) :
    Except Failure Outcome := do
  let handled ← handleHttpReqCommand env true command server.engine
  let server := { server with engine := handled.engine }
  if handled.success then
    return { server := server, reply := some (ok handled.responseBody), run := handled.run }
  else return { server := server, reply := some (ok okText), run := handled.run
                forwarded := some command }

/-- A request for `/command`, from its trimmed body on. -/
def handleCommandBody (env : Environment) (body : Bytes) (server : Server) :
    Except Failure Outcome :=
  let refused (reply : Reply) : Except Failure Outcome :=
    .ok { server := server, reply := some reply }
  if body = [] then refused (badRequest "Empty command")
  else if (ascii "REQ").isPrefixOf body then
    handleOpenCommand env body "Invalid REQ command" server
  else if body = ascii "GETRULES" then
    handleOpenCommand env body "Invalid GETRULES command" server
  else
    match cutAt ' ' body with
    | none => refused (badRequest "Missing session id")
    | some (sessionId, rest) =>
      let command := trimString rest
      if command = [] then refused (badRequest "Missing command")
      else
        let (accepted, server) := acceptSession env sessionId server
        if accepted then handleSessionCommand env command server
        else .ok { server := server, reply := some (unauthorized "Invalid session") }

def isUpload (line : RequestLine) : Bool :=
  line.method = ascii "POST" ∧ line.path = ascii "/upload_firmware"

def isCommand (line : RequestLine) : Bool :=
  line.method = ascii "POST" ∧ line.path = ascii "/command"

def handleCommandRequest (env : Environment) (chunks : List Bytes) (server : Server) :
    Except Failure Outcome :=
  match chunks with
  | [] => .ok { server := server, reply := none }
  | request :: chunks =>
    match readRequestLine request with
    | .error reply => .ok { server := server, reply := some reply }
    | .ok line =>
      if line.method = ascii "OPTIONS" then .ok { server := server, reply := some noContent }
      else do
        let headers ← raise (readHeaders request line)
        if isUpload line then
          if headers.contentLength = 0 ∨
              find (ascii "multipart/form-data") headers.contentType = none then
            return { server := server, reply := some (badRequest "Invalid upload request") }
          else return handleUpload env headers (readBody request line headers chunks) server
        else if isCommand line then
          handleCommandBody env (trimString (readBody request line headers chunks)) server
        else return { server := server, reply := some notFound }

end InverterMonitor.Http
