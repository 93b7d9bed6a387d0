import ColorCensus.Census.Event
import ColorCensus.Census.Source
import ColorCensus.Report
import ColorCensus.Tally

namespace ColorCensus

namespace Census

open Text

structure Outcome (α : Type) where
  events : List Event
  result : Except Fault α

namespace Outcome

def fail (f : Fault) : Outcome α := ⟨[], .error f⟩

def done (a : α) : Outcome α := ⟨[], .ok a⟩

def after (events : List Event) (x : Outcome α) : Outcome α := ⟨events ++ x.events, x.result⟩

def map (g : α → β) (x : Outcome α) : Outcome β := ⟨x.events, x.result.map g⟩

theorem result_after (events : List Event) (x : Outcome α) : (x.after events).result = x.result :=
  rfl

end Outcome

def countFiles (properties : List Text) (t : Tally) : List FileSystem.Found → Outcome Tally
  | [] => .done t
  | file :: files =>
    match declarationsOf properties file.path file.content with
    | .error f => .fail f
    | .ok declarations =>
      let values := declarations.map fun d => d.value
      (countFiles properties (t.addValues values) files).after
        (.extracted file.path declarations.length :: values.flatMap Event.ofValue)

def take (fs : FileSystem) (properties : List Text) (root : Text) : Outcome Report :=
  match fs.find stylesheetEnding root with
  | .error f => .fail (.path f)
  | .ok files =>
    ((countFiles properties .empty files).map (Report.ofTally files.length)).after
      [.walked files.length root]

def takeStandard (fs : FileSystem) (source : AllowList.Source) (root : Text) : Outcome Report :=
  match (AllowList.loadStandard fs source []).1 with
  | .error f => .fail (.allowList f)
  | .ok properties => take fs properties root

end Census

end ColorCensus
