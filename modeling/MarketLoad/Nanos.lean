/-! # Nanoseconds -/

namespace MarketLoad.Nanos

abbrev perSecond : Nat := 1000000000

abbrev perMilli : Nat := 1000000

abbrev perMicro : Nat := 1000

end MarketLoad.Nanos
