/-! The range of integers of 64 bits. -/

namespace EmailTemplate

/-- How many integers 64 bits tell apart. -/
def wordCount : Nat := 18446744073709551616

/-- The least magnitude that needs all bits if one of them is the sign. -/
def signedBound : Nat := 9223372036854775808

end EmailTemplate
