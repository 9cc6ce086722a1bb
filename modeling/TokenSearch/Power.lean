/-!
Powers of naturals and integers are the core library's in every module. Where an import brings
another instance of them, a definition and the statements about it would otherwise not be written
with the same term.
-/

namespace TokenSearch

attribute [instance (high), default_instance (high + 1)] instPowNat

end TokenSearch
