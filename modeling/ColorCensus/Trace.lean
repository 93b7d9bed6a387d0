import ColorCensus.Text.Case.Lower
import ColorCensus.Text.Case.Upper
import ColorCensus.Text.Split

namespace ColorCensus

open Text

structure Topics where
  setting : Text
  active : List Text
  deriving DecidableEq, Repr

namespace Topics

def key (topic : Text) : Text := lower (strip topic)

def asked (topic : Text) : Text := strip (lower topic)

def keys (topics : List Text) : List Text := (topics.filter fun t => strip t ≠ []).map key

theorem keys_append (xs ys : List Text) : keys (xs ++ ys) = keys xs ++ keys ys := by
  simp [keys]

def named (setting : Text) : List Text := keys (split ',' setting)

def start (setting : Text) : Topics := ⟨setting, named setting⟩

def set (t : Topics) (setting : Text) : Topics := { t with setting }

def reload (t : Topics) : Topics := start t.setting

def enable (t : Topics) (topics : List Text) : Topics := { t with active := t.active ++ keys topics }

def every : Text := "all"

def isEnabled (t : Topics) (topic : Text) : Bool :=
  t.active.contains every || t.active.contains (asked topic)

theorem isEnabled_set (t : Topics) (setting topic : Text) :
    (t.set setting).isEnabled topic = t.isEnabled topic := rfl

theorem isEnabled_enable_nil (t : Topics) (topic : Text) :
    (t.enable []).isEnabled topic = t.isEnabled topic := by
  simp [enable, keys, isEnabled]

inductive Operation where
  | set (value : Option Text)
  | reload
  | enable (topics : List Text)
  deriving DecidableEq

def valueOf (value : Option Text) : Text := value.getD []

def step (t : Topics) : Operation → Topics
  | .set value => t.set (valueOf value)
  | .reload => t.reload
  | .enable topics => t.enable topics

def run (t : Topics) (ops : List Operation) : Topics := ops.foldl step t

end Topics

namespace Trace

def defaultTopic : Text := "inventory"

def defaultLevel : Text := "DEBUG"

def line (stamp topic level message : Text) : Text :=
  "[" ++ stamp ++ "] [" ++ Topics.asked topic ++ "][" ++ upper level ++ "] " ++ message ++ "\n"

def written (topics : Topics) (stamp topic level message : Text) : Text :=
  if topics.isEnabled topic then line stamp topic level message else []

theorem written_of_not_isEnabled {topics : Topics} {topic : Text} (stamp level message : Text)
    (h : topics.isEnabled topic = false) : written topics stamp topic level message = [] := by
  rw [written, h]
  rfl

end Trace

end ColorCensus
