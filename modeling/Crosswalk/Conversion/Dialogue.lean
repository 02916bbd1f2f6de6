import Crosswalk.Manifest
import Crosswalk.Oracle.Basic
import Crosswalk.Outcome
import Crosswalk.Project.Summary

namespace Crosswalk

structure Job where
  source : Source
  options : ResolvedOptions
  summary : Summary
  snapshot : Manifest

namespace Dialogue

def instruction (source : Language) (o : ResolvedOptions) : String :=
  let target := o.direction.target.name
  "You convert " ++ source.name ++ " source files into idiomatic " ++ target ++ ".\n"
    ++ o.preset.guidance ++ "\n"
    ++ "Keep every behavior of the original file. Reuse the established type names listed "
    ++ "below exactly. Answer with the complete " ++ target
    ++ " file only: no explanations, no Markdown."

def fileRequest (j : Job) : String :=
  "File: " ++ j.source.path ++ "\n\x60\x60\x60\n"
    ++ String.ofList (Text.trimEnd j.source.content.toList)
    ++ "\n\x60\x60\x60\n\n# Project context\n" ++ j.summary.render
    ++ "\n\n# Symbol manifest\n" ++ j.snapshot.render

def opening (j : Job) : List Message :=
  [⟨.system, instruction j.source.language j.options, none⟩, ⟨.user, fileRequest j, none⟩]

def repairRequest (a : Attempt) : String :=
  let diagnostic := a.verdict.diagnostic.getD "the answer did not contain usable code"
  "Attempt " ++ toString a.number ++ " failed validation:\n"
    ++ String.ofList (Text.trim diagnostic.toList)
    ++ "\n\nFix the problem and answer with the complete corrected file only."

def exchange (a : Attempt) : List Message :=
  [⟨.assistant, a.answer, none⟩, ⟨.user, repairRequest a, none⟩]

def messages (j : Job) (failures : List Attempt) : List Message :=
  opening j ++ failures.flatMap exchange

end Dialogue

end Crosswalk
