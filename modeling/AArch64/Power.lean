/-! Powers with natural exponents. They are those of the core library in every module, whatever instances are
in scope besides. -/

attribute [instance (2000), default_instance 20000] instPowNat
