import RequestQuery.Text.Quoted

/-!
# Faults of settings

Why settings cannot be used.
-/

namespace RequestQuery

/-- Why settings cannot be used. -/
inductive SettingsFault where
  /-- The document does not parse, or holds something that is no setting. -/
  | unreadable
  /-- A limit that must be positive is zero. -/
  | zeroLimit (name : String)
  /-- The default page is empty or larger than the largest page. -/
  | defaultTop (maxTop : UInt32)
  /-- A key to be passed through is that of a query option. -/
  | shadowedOption (key : String)
  /-- A key to be passed through is empty. -/
  | emptyKey
  deriving DecidableEq

namespace SettingsFault

/-- The limit that a fault is about. -/
def limit? : SettingsFault → Option String
  | .zeroLimit name => some name
  | .defaultTop _ => some "default_top"
  | _ => none

/-- The text of a fault. -/
def message : SettingsFault → String
  | .unreadable => "parse error"
  | .zeroLimit name => s!"invalid limit {name}: must be at least 1"
  | .defaultTop maxTop =>
    s!"invalid limit default_top: must be between 1 and max_top ({maxTop.toNat})"
  | .shadowedOption key => s!"invalid contract: pass-through key '{key}' shadows a query parameter"
  | .emptyKey => "invalid contract: pass-through key " ++ Text.Quoted.text "" ++ " is empty"

end SettingsFault

end RequestQuery
