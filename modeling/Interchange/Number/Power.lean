/-!
Powers of naturals and integers. Every power in the library is the one of the core library, also where
a module sees other instances.
-/
namespace Interchange

@[default_instance high]
instance (priority := high) naturalPower : Pow Nat Nat := instPowNat

@[default_instance high]
instance (priority := high) integerPower : Pow Int Nat := instPowNat

end Interchange
