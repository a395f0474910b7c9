/-
# QueryScore.Sql.Command.Access -- who may do what

GRANT, REVOKE and DENY name privileges, the objects they are about and those they are given to. A
privilege is one word or several, and some of them are limited to columns.
-/

import QueryScore.Sql.Command.Phrase

namespace QueryScore.Sql.Command

open QueryScore.Sql.Parser

/-! ## Those who have privileges -/

/-- A user by name, perhaps with the machine it comes from. -/
def granteeName : Parser Unit := do
  let name ← dottedName
  if name.length = 1 then
    if ← sign "@" then passIdent

/-- The kinds of those who are given something. -/
def granteeKinds : List (List String) :=
  [["ROLE"], ["USER"], ["SHARE"], ["GROUP"], ["PUBLIC"], ["DATABASE", "ROLE"],
    ["APPLICATION", "ROLE"], ["APPLICATION"]]

/-- One of those who are given something, of the kind of the one before unless it says its own;
gives the kind. All the public has no name. -/
def grantee (kind : Option (List String)) : Parser (Option (List String)) := do
  let kind := (← acceptAny granteeKinds).orElse fun _ => kind
  unless kind = some ["PUBLIC"] do
    granteeName
    if ← sign ":" then passIdent
  return kind

/-- Those who are given something. -/
def grantees : Parser Unit := do
  let kind ← grantee none
  pass (stepping (fun kind => do
    if ← sign "," then return some (← grantee kind) else return none) kind)

/-! ## Privileges -/

/-- Phrases of one or several words, written with blanks between them. -/
def phrasings (all : List String) : List (List String) := all.map fun text => text.splitOn " "

/-- The things that may be created. -/
def creatable : List (List String) :=
  phrasings ["APPLICATION PACKAGE", "COMPUTE POOL", "DATA EXCHANGE LISTING", "EXTERNAL VOLUME",
    "FAILOVER GROUP", "NETWORK POLICY", "ORGANIZATION LISTING", "REPLICATION GROUP", "ACCOUNT",
    "APPLICATION", "DATABASE", "INTEGRATION", "ROLE", "SCHEMA", "SHARE", "USER", "WAREHOUSE"]

/-- The things that may be applied. -/
def applicable : List (List String) :=
  phrasings ["AGGREGATION POLICY", "AUTHENTICATION POLICY", "JOIN POLICY", "MASKING POLICY",
    "PACKAGES POLICY", "PASSWORD POLICY", "PROJECTION POLICY", "ROW ACCESS POLICY",
    "SESSION POLICY", "TAG"]

/-- The things that may be run. -/
def runnable : List (List String) :=
  phrasings ["DATA METRIC FUNCTION", "MANAGED ALERT", "MANAGED TASK", "ALERT", "TASK"]

/-- The things that may be managed. -/
def manageable : List (List String) :=
  phrasings ["ACCOUNT SUPPORT CASES", "EVENT SHARING", "GRANTS", "LISTING AUTO FULFILLMENT",
    "ORGANIZATION SUPPORT CASES", "USER SUPPORT CASES", "WAREHOUSES"]

/-- The things that may be modified. -/
def modifiable : List (List String) :=
  phrasings ["LOG LEVEL", "TRACE LEVEL", "SESSION LOG LEVEL", "SESSION TRACE LEVEL"]

/-- The things that may be watched. -/
def watchable : List (List String) := phrasings ["EXECUTION", "SECURITY", "USAGE"]

/-- The privileges of several words, and those of one word that have nothing behind them. -/
def barePrivileges : List (List String) :=
  phrasings ["IMPORTED PRIVILEGES", "ADD SEARCH OPTIMIZATION", "ATTACH LISTING", "ATTACH POLICY",
    "BIND SERVICE ENDPOINT", "EVOLVE SCHEMA", "IMPORT SHARE", "MANAGE VERSIONS", "MANAGE RELEASES",
    "OVERRIDE SHARE RESTRICTIONS", "PURCHASE DATA EXCHANGE LISTING", "RESOLVE ALL", "READ SESSION",
    "APPLYBUDGET", "AUDIT", "CONNECT", "DELETE", "FAILOVER", "OPERATE", "READ", "REPLICATE",
    "TEMPORARY", "TRIGGER", "TRUNCATE", "USAGE", "OWNERSHIP", "DROP"]

/-- The privileges. -/
def privileges : Choices :=
  wordings barePrivileges ++
  [(["DATABASE", "ROLE"], passName), (["APPLY"], choose (wordings applicable)),
    (["CREATE"], mayChoose (wordings creatable)), (["EXECUTE"], mayChoose (wordings runnable)),
    (["EXEC"], mayChoose (wordings runnable)), (["INSERT"], pass nameListIfAny),
    (["MANAGE"], choose (wordings manageable)), (["MODIFY"], mayChoose (wordings modifiable)),
    (["MONITOR"], mayChoose (wordings watchable)), (["REFERENCES"], pass nameListIfAny),
    (["ROLE"], passName), (["SELECT"], pass nameListIfAny), (["UPDATE"], pass nameListIfAny)]

/-- All privileges, or a list of them. -/
def privilegeList : Parser Unit := do
  if ← keyword "ALL" then may ["PRIVILEGES"] else passList (choose privileges)

/-! ## Objects -/

/-- A dotted name, of which a star may be the last part. -/
def starredName : Parser Unit :=
  pass (phrases do
    unless ← sign "*" do passIdent
    return ((), ← sign "."))

/-- All objects of a kind in some schemas. -/
def wholeKinds : List (List String) :=
  phrasings ["ALL TABLES IN SCHEMA", "ALL EXTERNAL TABLES IN SCHEMA", "ALL VIEWS IN SCHEMA",
    "ALL MATERIALIZED VIEWS IN SCHEMA", "ALL FUNCTIONS IN SCHEMA", "FUTURE SCHEMAS IN DATABASE",
    "FUTURE TABLES IN SCHEMA", "FUTURE EXTERNAL TABLES IN SCHEMA", "FUTURE VIEWS IN SCHEMA",
    "FUTURE MATERIALIZED VIEWS IN SCHEMA", "ALL SEQUENCES IN SCHEMA", "FUTURE SEQUENCES IN SCHEMA",
    "RESOURCE MONITOR", "COMPUTE POOL", "FAILOVER GROUP", "REPLICATION GROUP", "EXTERNAL VOLUME"]

/-- The kinds of objects that are named one by one. -/
def objectKinds : List String :=
  ["SEQUENCE", "DATABASE", "SCHEMA", "TABLE", "VIEW", "WAREHOUSE", "INTEGRATION", "USER",
    "CONNECTION"]

/-- The objects that privileges are about. -/
def objects (r : Rules) : Parser Unit := do
  if ← chosen (wholeKinds.map fun words => (words, passList dottedName)) then return
  match ← oneOf (objectKinds ++ ["PROCEDURE", "FUNCTION"]) with
  | some "PROCEDURE" | some "FUNCTION" =>
    passList starredName
    if ← sign "(" then pass (listUntil ")" (dataType r))
  | _ => passList starredName

/-! ## Commands -/

/-- The privileges of a command and the objects they are about; tells whether there are objects. -/
def subject (r : Rules) : Parser Bool := do
  privilegeList
  return (← behind ["ON"] (objects r)).isSome

/-- The rest of `GRANT`. -/
def grant (r : Rules) : Parser Unit := do
  pass (subject r)
  expect ["TO"]
  grantees
  may ["WITH", "GRANT", "OPTION"]
  mayChoose (wordings [["COPY", "CURRENT", "GRANTS"], ["REVOKE", "CURRENT", "GRANTS"]])
  passBehind ["AS"] identifier
  passBehind ["GRANTED", "BY"] identifier

/-- The rest of `DENY`. -/
def deny (r : Rules) : Parser Unit := do
  unless ← subject r do mismatch
  expect ["TO"]
  grantees
  mayCascade
  passBehind ["AS"] identifier

/-- The rest of `REVOKE`. -/
def revoke (r : Rules) : Parser Unit := do
  pass (subject r)
  expect ["FROM"]
  grantees
  passBehind ["GRANTED", "BY"] identifier
  mayCascade

end QueryScore.Sql.Command
