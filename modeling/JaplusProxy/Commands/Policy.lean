import JaplusProxy.Engine
import JaplusProxy.Predicates

/-! The two command policies of proxy.c, as they judge the buffers they are
given. `true` blocks. -/
namespace JaplusProxy.Commands
open CString

def jaPlusBlock (cmd args : Bytes) (argc : Int) (arg1 : Bytes) : Bool :=
  if strCasePrefix cmd (lit "amsay") 5 || strCasePrefix cmd (lit "ampsay") 6 then
    hasCRLF args || 256 < args.length
  else if strCasePrefix cmd (lit "amvstr") 6 then
    !(argc == 2 && peek arg1 != 0 && arg1.length ≤ 64 && isTokenChars arg1)
  else if strCasePrefix cmd (lit "ammap") 5 then
    !(argc == 2 && peek arg1 != 0 && arg1.length ≤ 64 && isMapChars arg1)
  else if strCasePrefix cmd (lit "amlogin") 7 then
    hasCRLF args || 128 < args.length
  else if strCasePrefix cmd (lit "amrename") 8 then
    peek arg1 == 0 || hasCRLF arg1 || hasChaining arg1 || 64 < arg1.length
  else if strCasePrefix cmd (lit "amtele") 6 || strCasePrefix cmd (lit "amtelemark") 10 ||
      strCasePrefix cmd (lit "amorigin") 8 then
    hasCRLF args || hasChaining args || 512 < args.length || !isNumberChars args
  else if strCasePrefix cmd (lit "amplayefx") 9 || strCasePrefix cmd (lit "amweather") 9 then
    peek arg1 == 0 || hasCRLF args || hasChaining args || 512 < args.length || !isPathChars arg1
  else if strCasePrefix cmd (lit "ampoll") 6 then
    hasCRLF args || hasChaining args || 256 < args.length
  else hasCRLF args || hasChaining args || 512 < args.length

/-- The cheat-module signature is announced and dropped. -/
def punish (e : Engine) (clientNum : Int) : List Syscall :=
  (proxySyscall e (.sendServerCommand (-1)
    (some (lit "chat \"^3(Anti-Cheat system) cheating detected^7\"")))).issued ++
  (proxySyscall e (.dropClient clientNum (lit "(Anti-Cheat system) cheating detected"))).issued

/-- The numeric validation of callvote. -/
def voteRange (arg1 arg2 : Bytes) : Bool :=
  let v := strtol arg2
  if strCaseEq arg1 (lit "capturelimit") 12 || strCaseEq arg1 (lit "fraglimit") 9 then v < 0
  else if strCaseEq arg1 (lit "g_doWarmup") 10 then v < 0 || 1 < v
  else if strCaseEq arg1 (lit "map_restart") 11 then v < 0 || 60 < v
  else if strCaseEq arg1 (lit "timelimit") 9 then v < 0 || 35790 < v
  else false

/-- A slot that indexes outside the client array. -/
def badSlot (e : Engine) (arg1 : Bytes) : Bool :=
  strtol arg1 < 0 || engineCvarInt e (lit "sv_maxclients") ≤ strtol arg1

/-- The verdict and the calls made on the way. -/
def vanillaBlock (e : Engine) (clientNum : Int) (cmd args : Bytes) (_argc : Int) (arg1 arg2 : Bytes) :
    Bool × List Syscall :=
  if strCasePrefix cmd (lit "jkaDST_") 7 then (true, punish e clientNum)
  else if strCaseEq cmd (lit "gc") 2 && badSlot e arg1 then (true, [])
  else if strCaseEq cmd (lit "npc") 3 &&
      (strCaseEq (engineArgv e 1 128) (lit "spawn") 5 &&
        (strCaseEq (engineArgv e 2 128) (lit "ragnos") 6 ||
          strCaseEq (engineArgv e 2 128) (lit "saber_droid") 10)) then (true, [])
  else if strCaseEq cmd (lit "team") 4 &&
      (strCaseEq arg1 (lit "follow1") 7 || strCaseEq arg1 (lit "follow2") 7) then (true, [])
  else if strCaseEq cmd (lit "callteamvote") 12 then (true, [])
  else if strCaseEq cmd (lit "callvote") 8 then
    (256 ≤ arg2.length || voteRange arg1 arg2 || hasCRLF args || hasChaining args, [])
  else if strCaseEq cmd (lit "say") 3 || strCaseEq cmd (lit "say_team") 8 ||
      strCaseEq cmd (lit "tell") 4 then
    (hasCRLF args || 256 < args.length, [])
  else (hasCRLF args || hasChaining args, [])

end JaplusProxy.Commands
