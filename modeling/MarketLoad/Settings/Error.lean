import MarketLoad.Binary64.Text
import MarketLoad.FileTree
import MarketLoad.Identity
import MarketLoad.Text.Quoted

/-! # What can be wrong with settings -/

namespace MarketLoad

/-- A setting that no run can work with. -/
inductive BadSetting
  | emptyHost
  | zeroInterval
  | zeroLimit
  | emptyCatalog
  | quantityRange (low high : UInt32)
  | jitter
  /-- No trader can have a name that starts so. -/
  | stem (start : String)
  /-- The trader of this number has no valid name. -/
  | trader (index : Nat)
  | symbol (ticker : String)
  | basePrice (unpriced : Symbol)
  | seconds (value : Binary64)
deriving DecidableEq, Repr

namespace BadSetting

def message : BadSetting → String
  | emptyHost => "host must not be empty"
  | zeroInterval => "order interval must be positive"
  | zeroLimit => "max concurrency must be at least 1"
  | emptyCatalog => "symbol catalog is empty"
  | quantityRange low high =>
    "quantity range " ++ String.ofList (Text.digits low.toNat) ++ "..=" ++
      String.ofList (Text.digits high.toNat) ++ " is invalid"
  | jitter => "price jitter must be in 0..10000 bps"
  | stem start => "trader prefix " ++ Text.quoted start ++ " produces invalid identities"
  | trader index => "invalid trader id for index " ++ String.ofList (Text.digits index)
  | symbol ticker => "invalid symbol " ++ Text.quoted ticker
  | basePrice unpriced => "base price for " ++ unpriced.ticker ++ " must be positive"
  | seconds value => value.plain ++ " is not a valid number of seconds"

end BadSetting

/-- Why there are no settings. -/
inductive SettingsError
  /-- The file cannot be read. -/
  | unreadable (path : String) (trouble : FileTrouble)
  /-- The text is no settings file. -/
  | malformed
  | invalid (setting : BadSetting)
deriving DecidableEq, Repr

namespace SettingsError

def message : SettingsError → String
  | unreadable path trouble =>
    "Failed to read config file " ++ Text.quoted path ++ ": " ++ trouble.message
  | malformed => "Failed to parse TOML config"
  | invalid setting => "Invalid configuration: " ++ setting.message

end SettingsError

end MarketLoad
